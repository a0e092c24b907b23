import Canyon.Kernel.Logger

/-!
# The scrolling console

`Logger::write` prints the lines of a record, each with a heading; `write_char` moves the
position, wraps and scrolls when the next glyph needs room. A newline alone moves the position
down without a check: what keeps it on the screen is that every line begins with a glyph.
-/

namespace Canyon.Kernel

open Canyon.Lib

/-- `BitmapChar`. -/
structure BitmapChar where
  /-- `width()`. -/
  width : Nat
  /-- `bitmap()`. -/
  bitmap : List (List UInt8)

/-- `get_bitmap` at the logger's weight and size. -/
abbrev Font := Char → Option BitmapChar

namespace Logger

/-- `Logger::carriage_return`. -/
def carriageReturn (logger : Logger) : Logger := { logger with xPos := 0 }

/-- `Logger::newline`. -/
def newline (logger : Logger) : Logger :=
  { logger with yPos := logger.yPos + logger.fontSize }.carriageReturn

/-- Subtraction of `usize`. -/
def checkedSub (left right : Nat) : Except LoggerFault Nat :=
  if right ≤ left then .ok (left - right) else .error .underflow

/-- The line wrap in `Logger::write_char`. -/
def wrap (logger : Logger) (bitmapChar : BitmapChar) : Logger :=
  if logger.xPos + bitmapChar.width ≥ logger.horRes then logger.newline else logger

/-- `ptr::copy` of bytes of the framebuffer to its beginning. -/
def copyToStart (logger : Logger) (source count : Nat) : Except LoggerFault Logger :=
  if source + count ≤ logger.framebuffer.length then
    .ok { logger with framebuffer :=
      (logger.framebuffer.drop source).take count ++ logger.framebuffer.drop count }
  else .error .copy

/-- The scrolling in `Logger::write_char`. -/
def scroll (logger : Logger) : Except LoggerFault Logger := do
  let letterHeight := logger.fontSize
  let below ← checkedSub logger.verRes logger.yPos
  let lines ← checkedSub letterHeight below
  let source := lines * logger.stride * logger.bytesPerPixel
  if source < logger.framebuffer.length then
    let rows ← checkedSub logger.verRes letterHeight
    let count := rows * logger.stride * logger.bytesPerPixel
    let copied ← logger.copyToStart source count
    let yPos ← checkedSub logger.verRes letterHeight
    .ok ({ copied with yPos }.blankFrom (yPos * logger.stride * logger.bytesPerPixel))
  else .error .index

/-- What `Logger::write_char` does before it draws a glyph: wrap, and scroll if needed. -/
def makeRoom (logger : Logger) (bitmapChar : BitmapChar) : Except LoggerFault Logger := do
  let wrapped := logger.wrap bitmapChar
  let limit ← checkedSub wrapped.verRes wrapped.fontSize
  if wrapped.yPos > limit then wrapped.scroll else .ok wrapped

/-- The inner loop of `Logger::write_rendered_char`. -/
def writeRow (logger : Logger) (y : Nat) (row : List UInt8) : Except LoggerFault Logger :=
  row.zipIdx.foldlM (fun logger byte =>
    logger.writePixel (logger.xPos + byte.2) (logger.yPos + y) byte.1) logger

/-- `Logger::write_rendered_char`. -/
def writeRenderedChar (logger : Logger) (renderedChar : BitmapChar) :
    Except LoggerFault Logger := do
  let drawn ← renderedChar.bitmap.zipIdx.foldlM (fun logger row =>
    logger.writeRow row.2 row.1) logger
  .ok { drawn with xPos := drawn.xPos + renderedChar.width }

/-- `Logger::write_char`. -/
def writeChar (font : Font) (logger : Logger) (c : Char) : Except LoggerFault Logger :=
  if c = '\n' then .ok logger.newline
  else if c = '\r' then .ok logger.carriageReturn
  else match font c with
    | none => .error .noGlyph
    | some bitmapChar => do
      let placed ← logger.makeRoom bitmapChar
      placed.writeRenderedChar bitmapChar

/-- `Logger::write_str`. -/
def writeStr (font : Font) (logger : Logger) (text : List Char) : Except LoggerFault Logger :=
  text.foldlM (writeChar font) logger

end Logger

/-! ## Records -/

/-- `as_str` of a level. -/
def Level.asStr : Level → List Char
  | .error => "ERROR".toList
  | .warn => "WARN".toList
  | .info => "INFO".toList
  | .debug => "DEBUG".toList
  | .trace => "TRACE".toList

/-- A text filled up at its start to a least width. -/
def padStart (width : Nat) (fill : Char) (text : List Char) : List Char :=
  List.replicate (width - text.length) fill ++ text

/-- The line without the carriage return that ends it. -/
def stripReturn (line : List Char) : List Char :=
  if line.getLast? = some '\r' then line.dropLast else line

/-- `str::lines`: a line ends at a newline, with or without a carriage return before it, and
nothing after the last newline is no line. -/
def lines (text : List Char) : List (List Char) :=
  let parts := text.splitOn '\n'
  let last := parts.getLastD []
  parts.dropLast.map stripReturn ++ if last = [] then [] else [last]

/-- What `Logger::write` is called with. -/
structure LogRecord where
  /-- `log_level`. -/
  level : Level
  /-- `args`, formatted. -/
  message : List Char
  /-- `file`. -/
  file : List Char
  /-- `line`. -/
  line : Nat

namespace LogRecord

/-- `prefix` of `Logger::write`. -/
def heading (record : LogRecord) : List Char :=
  '[' :: (padStart 5 ' ' record.level.asStr ++ "]: ".toList ++ padStart 12 ' ' record.file ++
    "@".toList ++ padStart 3 '0' (Nat.toDigits 10 record.line) ++ ": ".toList)

/-- The lines that `Logger::write` prints: the first line of the message or an empty one, the
other lines, and an empty one for a message that ends with a newline. -/
def printed (record : LogRecord) : List (List Char) :=
  (lines record.message).headD [] :: (lines record.message).tail ++
    if record.message.getLast? = some '\n' then [[]] else []

/-- What a `write!` of `Logger::write` prints for a line. -/
def lineText (record : LogRecord) (line : List Char) : List Char :=
  record.heading ++ line ++ ['\n']

/-- All characters that `Logger::write` prints. -/
def text (record : LogRecord) : List Char := record.printed.flatMap record.lineText

end LogRecord

/-- `Logger::write`. -/
def Logger.write (font : Font) (logger : Logger) (record : LogRecord) :
    Except LoggerFault Logger :=
  record.printed.foldlM (fun logger line => logger.writeStr font (record.lineText line))
    (logger.setPalette record.level)

namespace Logger

/-! ## Geometry -/

/-- What no operation changes: the screen's dimensions, the sizes of a pixel and of the font, and
the size of the framebuffer. -/
def geometry (logger : Logger) : Nat × Nat × Nat × Nat × Nat × Nat :=
  (logger.horRes, logger.verRes, logger.stride, logger.bytesPerPixel, logger.fontSize,
    logger.framebuffer.length)

variable {logger after : Logger} {glyph : BitmapChar}

/-- The parts of the geometry. -/
theorem geometry_eq_iff : after.geometry = logger.geometry ↔
    after.horRes = logger.horRes ∧ after.verRes = logger.verRes ∧
      after.stride = logger.stride ∧ after.bytesPerPixel = logger.bytesPerPixel ∧
      after.fontSize = logger.fontSize ∧
      after.framebuffer.length = logger.framebuffer.length := by
  simp only [geometry, Prod.mk.injEq]

/-- A screen of 32-bit pixels on which a line of text fits. -/
structure Screen (logger : Logger) : Prop where
  /-- A pixel has four bytes. -/
  bytes : logger.bytesPerPixel = 4
  /-- The framebuffer holds the scanlines. -/
  length : logger.framebuffer.length = 4 * logger.stride * logger.verRes
  /-- Scanlines may be padded. -/
  padded : logger.horRes ≤ logger.stride
  /-- The font has a height. -/
  font : 0 < logger.fontSize
  /-- A line fits. -/
  tall : logger.fontSize ≤ logger.verRes

/-- The screen depends on the geometry only. -/
theorem Screen.congr (screen : logger.Screen) (same : after.geometry = logger.geometry) :
    after.Screen := by
  obtain ⟨hor, ver, stride, bytes, font, length⟩ := geometry_eq_iff.mp same
  refine ⟨?_, ?_, ?_, ?_, ?_⟩
  · rw [bytes, screen.bytes]
  · rw [length, stride, ver, screen.length]
  · rw [hor, stride]
    exact screen.padded
  · rw [font]
    exact screen.font
  · rw [font, ver]
    exact screen.tall

/-- A logger with other bytes has the same geometry. -/
theorem Redrawn.geometry_eq (redrawn : logger.Redrawn after) :
    after.geometry = logger.geometry := by
  obtain ⟨framebuffer, length, rfl⟩ := redrawn
  simp only [geometry, length]

/-- A logger with other bytes has the same position and palette. -/
theorem Redrawn.fields (redrawn : logger.Redrawn after) :
    after.xPos = logger.xPos ∧ after.yPos = logger.yPos ∧ after.palette = logger.palette := by
  obtain ⟨framebuffer, -, rfl⟩ := redrawn
  exact ⟨rfl, rfl, rfl⟩

/-- Brightness depends on the palette only. -/
theorem Bright.congr (bright : logger.Bright) (same : after.palette = logger.palette) :
    after.Bright := by
  unfold Bright
  rw [same]
  exact bright

/-- A logger redrawn twice is redrawn. -/
theorem Redrawn.trans {middle : Logger} (first : logger.Redrawn middle)
    (second : middle.Redrawn after) : logger.Redrawn after := by
  obtain ⟨_, length, rfl⟩ := first
  obtain ⟨framebuffer, lengthAgain, rfl⟩ := second
  exact ⟨framebuffer, lengthAgain.trans length, rfl⟩

/-- Nothing drawn. -/
theorem Redrawn.refl (logger : Logger) : logger.Redrawn logger := ⟨_, rfl, rfl⟩

/-- A line break keeps the geometry. -/
theorem geometry_wrap (logger : Logger) (glyph : BitmapChar) :
    (logger.wrap glyph).geometry = logger.geometry := by
  unfold wrap
  split <;> rfl

/-! ## Glyphs -/

/-- The glyph has the height of the font and a width below that of the screen. -/
structure Fitting (logger : Logger) (glyph : BitmapChar) : Prop where
  /-- The glyph's rows are as many as the font is high. -/
  height : glyph.bitmap.length = logger.fontSize
  /-- Every row has the glyph's width. -/
  rows : ∀ row ∈ glyph.bitmap, row.length = glyph.width
  /-- The glyph is narrower than the screen. -/
  narrow : glyph.width < logger.horRes

/-- The glyph fits on the screen at the position of the logger. -/
structure Inside (logger : Logger) (glyph : BitmapChar) : Prop where
  /-- No column is beyond the right edge. -/
  columns : logger.xPos + glyph.width ≤ logger.horRes
  /-- No row is below the bottom. -/
  rows : logger.yPos + logger.fontSize ≤ logger.verRes

/-- A row inside the screen is drawn. -/
theorem Screen.writeRow (screen : logger.Screen) (bright : logger.Bright) {y : Nat}
    {row : List UInt8} (columns : logger.xPos + row.length ≤ logger.horRes)
    (inside : logger.yPos + y < logger.verRes) :
    ∃ drawn, logger.writeRow y row = .ok drawn ∧ logger.Redrawn drawn := by
  refine exists_foldlM_ok logger.Redrawn (fun current byte byteIn redrawn => ?_) (.refl logger)
  obtain ⟨column, -⟩ := List.mem_zipIdx' byteIn
  have currentScreen := screen.congr redrawn.geometry_eq
  obtain ⟨hor, ver, -⟩ := geometry_eq_iff.mp redrawn.geometry_eq
  obtain ⟨xPos, yPos, palette⟩ := redrawn.fields
  obtain ⟨color, next, -, -, ran, redrawnNext, -⟩ := writePixel_returns (bright.congr palette)
    currentScreen.bytes currentScreen.length currentScreen.padded
    (show current.xPos + byte.2 < current.horRes by omega)
    (show current.yPos + y < current.verRes by omega) byte.1
  exact ⟨next, ran, redrawn.trans redrawnNext⟩

/-- A fitting glyph inside the screen is drawn. -/
theorem Screen.writeRenderedChar (screen : logger.Screen) (bright : logger.Bright)
    (fitting : logger.Fitting glyph) (inside : logger.Inside glyph) :
    ∃ drawn, logger.Redrawn drawn ∧ logger.writeRenderedChar glyph =
      .ok { drawn with xPos := drawn.xPos + glyph.width } := by
  have loop : ∃ drawn, glyph.bitmap.zipIdx.foldlM (fun logger row =>
      Logger.writeRow logger row.2 row.1) logger = .ok drawn ∧ logger.Redrawn drawn := by
    refine exists_foldlM_ok logger.Redrawn (fun current row rowIn redrawn => ?_) (.refl logger)
    obtain ⟨low, isRow⟩ := List.mem_zipIdx' rowIn
    have width : row.1.length = glyph.width := by
      rw [isRow]
      exact fitting.rows _ (List.getElem_mem low)
    have bottom := inside.rows
    have height := fitting.height
    have edge := inside.columns
    have currentScreen := screen.congr redrawn.geometry_eq
    obtain ⟨hor, ver, -⟩ := geometry_eq_iff.mp redrawn.geometry_eq
    obtain ⟨xPos, yPos, palette⟩ := redrawn.fields
    obtain ⟨drawn, ran, redrawnRow⟩ := currentScreen.writeRow (bright.congr palette)
      (show current.xPos + row.1.length ≤ current.horRes by omega)
      (show current.yPos + row.2 < current.verRes by omega)
    exact ⟨drawn, ran, redrawn.trans redrawnRow⟩
  obtain ⟨drawn, ran, redrawn⟩ := loop
  refine ⟨drawn, redrawn, ?_⟩
  rw [Logger.writeRenderedChar, ran]
  rfl

/-! ## Scrolling -/

/-- A scanline. -/
def scanline (logger : Logger) (row : Nat) : List UInt8 :=
  (logger.framebuffer.drop (row * (4 * logger.stride))).take (4 * logger.stride)

/-- What a scroll does: the rows move up by what the next line lacks below, the bottom is blank,
and the position is at the last line. -/
structure Scrolled (before after : Logger) : Prop where
  /-- Nothing but the framebuffer and the position changes. -/
  same : ∃ framebuffer, framebuffer.length = before.framebuffer.length ∧
    after = { before with framebuffer, yPos := before.verRes - before.fontSize }
  /-- The rows move up. -/
  moved : ∀ row < before.verRes - before.fontSize, after.scanline row =
    before.scanline (row + (before.yPos + before.fontSize - before.verRes))
  /-- The rest is blank. -/
  blank : ∀ i, 4 * before.stride * (before.verRes - before.fontSize) ≤ i →
    i < before.framebuffer.length → after.framebuffer[i]? = some (before.backgroundByte i)

/-- Blanking leaves the bytes before its start. -/
theorem blankFrom_of_lt (logger : Logger) {start i : Nat} (before : i < start) :
    (logger.blankFrom start).framebuffer[i]? = logger.framebuffer[i]? := by
  simp only [blankFrom, List.getElem?_mapIdx, if_neg (Nat.not_le.mpr before), Option.map_id']

/-- Blanking sets the bytes from its start on. -/
theorem blankFrom_of_le (logger : Logger) {start i : Nat} (after : start ≤ i)
    (inside : i < logger.framebuffer.length) :
    (logger.blankFrom start).framebuffer[i]? = some (logger.backgroundByte i) := by
  simp only [blankFrom, List.getElem?_mapIdx, if_pos after, List.getElem?_eq_getElem inside,
    Option.map_some]

/-- Copying bytes within the framebuffer to its start. -/
theorem copyToStart_returns (logger : Logger) {source count : Nat}
    (inside : source + count ≤ logger.framebuffer.length) :
    ∃ copied, logger.copyToStart source count = .ok copied ∧ logger.Redrawn copied ∧
      ∀ i < count, copied.framebuffer[i]? = logger.framebuffer[source + i]? := by
  refine ⟨_, if_pos inside, ⟨_, ?_, rfl⟩, fun i early => ?_⟩
  · rw [List.length_append, List.length_take, List.length_drop, List.length_drop]
    omega
  · dsimp only
    rw [List.getElem?_append_left (by rw [List.length_take, List.length_drop]; omega),
      List.getElem?_take_of_lt early, List.getElem?_drop]

/-- Scanlines are equal when their bytes are. -/
theorem scanline_congr {before : Logger} (stride : after.stride = before.stride) {row other : Nat}
    (bytes : ∀ k < 4 * before.stride,
      after.framebuffer[row * (4 * before.stride) + k]? =
        before.framebuffer[other * (4 * before.stride) + k]?) :
    after.scanline row = before.scanline other := by
  refine List.ext_getElem? fun k => ?_
  unfold scanline
  rw [stride]
  by_cases inside : k < 4 * before.stride
  · rw [List.getElem?_take_of_lt inside, List.getElem?_take_of_lt inside, List.getElem?_drop,
      List.getElem?_drop, bytes k inside]
  · rw [List.getElem?_take_eq_none (by omega), List.getElem?_take_eq_none (by omega)]

/-- A scroll on a screen that is higher than a line. -/
theorem Screen.scroll (screen : logger.Screen) (stride : 0 < logger.stride)
    (low : logger.yPos ≤ logger.verRes) (deep : logger.verRes < logger.yPos + logger.fontSize)
    (room : logger.fontSize < logger.verRes) :
    ∃ after, logger.scroll = .ok after ∧ logger.Scrolled after := by
  obtain ⟨shift, isShift⟩ : ∃ shift, shift = logger.yPos + logger.fontSize - logger.verRes :=
    ⟨_, rfl⟩
  obtain ⟨rows, isRows⟩ : ∃ rows, rows = logger.verRes - logger.fontSize := ⟨_, rfl⟩
  have below : checkedSub logger.verRes logger.yPos = .ok (logger.verRes - logger.yPos) :=
    if_pos low
  have lines : checkedSub logger.fontSize (logger.verRes - logger.yPos) = .ok shift := by
    rw [checkedSub, if_pos (by omega)]
    congr 1
    omega
  have left : checkedSub logger.verRes logger.fontSize = .ok rows := by
    rw [checkedSub, if_pos screen.tall, isRows]
  -- Byte counts are multiples of a scanline, so they compare as the numbers of rows do.
  have size : ∀ count,
      count * logger.stride * logger.bytesPerPixel = count * (4 * logger.stride) := by
    intro count
    rw [screen.bytes, Nat.mul_assoc, Nat.mul_comm logger.stride]
  have total : logger.framebuffer.length = logger.verRes * (4 * logger.stride) := by
    rw [screen.length, Nat.mul_comm]
  have source : shift * (4 * logger.stride) < logger.framebuffer.length := by
    rw [total]
    exact Nat.mul_lt_mul_of_pos_right (by omega) (by omega)
  have inside : shift * (4 * logger.stride) + rows * (4 * logger.stride) ≤
      logger.framebuffer.length := by
    rw [total, ← Nat.add_mul]
    exact Nat.mul_le_mul_right _ (by omega)
  obtain ⟨copied, ranCopy, redrawn, moved⟩ := logger.copyToStart_returns inside
  refine ⟨{ copied with yPos := rows }.blankFrom (rows * (4 * logger.stride)), ?_, ?_, ?_, ?_⟩
  · simp only [Logger.scroll, below, lines, left, size, bind, Except.bind, if_pos source, ranCopy]
  · obtain ⟨framebuffer, length, rfl⟩ := redrawn
    rw [← isRows]
    exact ⟨_, List.length_mapIdx.trans length, rfl⟩
  · rw [← isRows, ← isShift]
    intro row isRow
    have ends : (row + 1) * (4 * logger.stride) ≤ rows * (4 * logger.stride) :=
      Nat.mul_le_mul_right _ isRow
    rw [Nat.add_mul, Nat.one_mul] at ends
    obtain ⟨-, -, sameStride, -⟩ := geometry_eq_iff.mp redrawn.geometry_eq
    refine scanline_congr (show (blankFrom _ _).stride = _ from sameStride) fun k small => ?_
    rw [blankFrom_of_lt _ (by omega)]
    show copied.framebuffer[_]? = _
    rw [moved _ (by omega), ← Nat.add_assoc, ← Nat.add_mul, Nat.add_comm shift]
  · intro i late small
    rw [← isRows, Nat.mul_comm] at late
    obtain ⟨framebuffer, length, rfl⟩ := redrawn
    exact blankFrom_of_le _ late (by rw [← length] at small; exact small)

/-! ## Room for a glyph -/

/-- The line at the position of the logger is on the screen. -/
def Settled (logger : Logger) : Prop := logger.yPos + logger.fontSize ≤ logger.verRes

/-- The line is on the screen, or it is a new one that may lie below. -/
def Ready (logger : Logger) : Prop :=
  logger.Settled ∨ logger.yPos ≤ logger.verRes ∧ logger.xPos = 0

/-- A line that is on the screen or new begins on the screen or right below it. -/
theorem Ready.low (ready : logger.Ready) : logger.yPos ≤ logger.verRes := by
  rcases ready with settled | ⟨low, -⟩
  · unfold Settled at settled
    omega
  · exact low

/-- What makes room for a glyph: a line break when the line is full, and a scroll when the line
is below the screen. -/
structure Placed (logger : Logger) (glyph : BitmapChar) (placed : Logger) : Prop where
  /-- The glyph is inside the screen. -/
  inside : placed.Inside glyph
  /-- A line below the screen scrolls it. -/
  scrolled : logger.verRes - logger.fontSize < (logger.wrap glyph).yPos →
    (logger.wrap glyph).Scrolled placed
  /-- A line on the screen stays. -/
  stays : (logger.wrap glyph).yPos ≤ logger.verRes - logger.fontSize →
    placed = logger.wrap glyph

/-- After the line break a fitting glyph is not too far right, and the line is at most right
below the screen. -/
theorem Ready.wrap (ready : logger.Ready) (fitting : logger.Fitting glyph) :
    (logger.wrap glyph).xPos + glyph.width ≤ logger.horRes ∧
      (logger.wrap glyph).yPos ≤ logger.verRes := by
  have narrow := fitting.narrow
  have low := ready.low
  unfold Logger.wrap
  split
  · rename_i full
    -- A line that is full is not new, so it is on the screen.
    have settled : logger.Settled := by
      rcases ready with settled | ⟨-, start⟩
      · exact settled
      · omega
    unfold Settled at settled
    exact ⟨by show 0 + glyph.width ≤ _; omega, settled⟩
  · exact ⟨by omega, low⟩

/-- There is room for every fitting glyph on a screen that is higher than a line. -/
theorem Screen.makeRoom (screen : logger.Screen) (ready : logger.Ready)
    (room : logger.fontSize < logger.verRes) (fitting : logger.Fitting glyph) :
    ∃ placed, logger.makeRoom glyph = .ok placed ∧ logger.Placed glyph placed ∧
      placed.geometry = logger.geometry ∧ placed.palette = logger.palette := by
  obtain ⟨columns, low⟩ := ready.wrap fitting
  have sameGeometry := logger.geometry_wrap glyph
  obtain ⟨hor, ver, stride, -, font, -⟩ := geometry_eq_iff.mp sameGeometry
  have palette : (logger.wrap glyph).palette = logger.palette := by
    unfold Logger.wrap
    split <;> rfl
  have wrappedScreen := screen.congr sameGeometry
  have limit : checkedSub (logger.wrap glyph).verRes (logger.wrap glyph).fontSize =
      .ok (logger.verRes - logger.fontSize) := by
    rw [ver, font]
    exact if_pos screen.tall
  have positive : 0 < (logger.wrap glyph).stride := by
    have := screen.padded
    have := fitting.narrow
    omega
  by_cases deep : (logger.wrap glyph).yPos > logger.verRes - logger.fontSize
  · obtain ⟨after, ran, scrolled⟩ := wrappedScreen.scroll positive (by omega) (by omega) (by omega)
    obtain ⟨framebuffer, length, isAfter⟩ := scrolled.same
    refine ⟨after, ?_, ⟨⟨?_, ?_⟩, fun _ => scrolled, fun high => by omega⟩, ?_, ?_⟩
    · simp only [Logger.makeRoom, limit, bind, Except.bind, if_pos deep, ran]
    · rw [isAfter]
      dsimp only
      omega
    · rw [isAfter]
      dsimp only
      have := screen.tall
      omega
    · rw [← sameGeometry, isAfter, geometry_eq_iff]
      exact ⟨rfl, rfl, rfl, rfl, rfl, length⟩
    · rw [isAfter, ← palette]
  · refine ⟨logger.wrap glyph, ?_, ⟨⟨by omega, ?_⟩, fun low => absurd low deep, fun _ => rfl⟩,
      sameGeometry, palette⟩
    · simp only [Logger.makeRoom, limit, bind, Except.bind, if_neg deep]
    · have := screen.tall
      omega

/-- A fitting glyph is written, on a line of the screen. -/
theorem Screen.writeChar {font : Font} (screen : logger.Screen) (bright : logger.Bright)
    (ready : logger.Ready) (room : logger.fontSize < logger.verRes) {c : Char}
    (notNewline : c ≠ '\n') (notReturn : c ≠ '\r') (isGlyph : font c = some glyph)
    (fitting : logger.Fitting glyph) :
    ∃ after, logger.writeChar font c = .ok after ∧ after.geometry = logger.geometry ∧
      after.palette = logger.palette ∧ after.Settled := by
  obtain ⟨placed, ran, room, sameGeometry, palette⟩ := screen.makeRoom ready room fitting
  obtain ⟨hor, ver, -, -, size, -⟩ := geometry_eq_iff.mp sameGeometry
  have placedFitting : placed.Fitting glyph :=
    ⟨by rw [size]; exact fitting.height, fitting.rows, by rw [hor]; exact fitting.narrow⟩
  obtain ⟨drawn, redrawn, drew⟩ := (screen.congr sameGeometry).writeRenderedChar
    (bright.congr palette) placedFitting room.inside
  obtain ⟨-, drawnVer, -, -, drawnSize, -⟩ := geometry_eq_iff.mp redrawn.geometry_eq
  obtain ⟨-, yPos, drawnPalette⟩ := redrawn.fields
  refine ⟨{ drawn with xPos := drawn.xPos + glyph.width }, ?_, ?_, ?_, ?_⟩
  · rw [Logger.writeChar, if_neg notNewline, if_neg notReturn, isGlyph]
    simp only [ran, bind, Except.bind, drew]
  · rw [← sameGeometry, ← redrawn.geometry_eq]
    rfl
  · rw [← palette, ← drawnPalette]
  · have bottom := room.inside.rows
    show drawn.yPos + drawn.fontSize ≤ drawn.verRes
    omega

end Logger

/-! ## Runs -/

/-- A step of the console. -/
inductive ConsoleEvent where
  /-- The palette of a level is set. -/
  | palette (level : Level)
  /-- A character is written. -/
  | char (c : Char)
  deriving DecidableEq, Repr

/-- The steps of `Logger::write`. -/
def LogRecord.events (record : LogRecord) : List ConsoleEvent :=
  .palette record.level :: record.text.map .char

namespace Logger

/-- One step of the console. -/
def apply (font : Font) (logger : Logger) : ConsoleEvent → Except LoggerFault Logger
  | .palette level => .ok (logger.setPalette level)
  | .char c => logger.writeChar font c

/-- Steps of the console, one after another. -/
def run (font : Font) (logger : Logger) (events : List ConsoleEvent) :
    Except LoggerFault Logger := events.foldlM (apply font) logger

/-- `Logger::write` takes the steps of its record. -/
theorem write_eq_run (font : Font) (logger : Logger) (record : LogRecord) :
    logger.write font record = logger.run font record.events := by
  have printed : ∀ (lines : List (List Char)) (logger : Logger),
      lines.foldlM (fun logger line => writeStr font logger (record.lineText line)) logger =
        run font logger ((lines.flatMap record.lineText).map .char) := by
    intro lines
    induction lines with
    | nil => exact fun _ => rfl
    | cons line rest ih =>
      intro logger
      rw [List.foldlM_cons, List.flatMap_cons, List.map_append, run, List.foldlM_append,
        List.foldlM_map]
      exact congrArg _ (funext ih)
  exact printed record.printed (logger.setPalette record.level)

/-- What the console promises at a step: the position is at most right below the screen, before
and after; the step returns, so that no subtraction, index or copy is out of range; and a glyph
is drawn inside the screen, after a scroll if its line lies below. -/
structure SafeAt (font : Font) (logger : Logger) (event : ConsoleEvent) : Prop where
  /-- The position before the step. -/
  low : logger.yPos ≤ logger.verRes
  /-- The step returns, and the position after it. -/
  returns : ∃ after, logger.apply font event = .ok after ∧ after.yPos ≤ after.verRes
  /-- A glyph is drawn inside the screen. -/
  drawn : ∀ c glyph, event = .char c → c ≠ '\n' → c ≠ '\r' → font c = some glyph →
    ∃ placed, logger.makeRoom glyph = .ok placed ∧ logger.Placed glyph placed

/-- The font has a fitting glyph for a character. -/
def Printable (font : Font) (logger : Logger) (c : Char) : Prop :=
  ∃ glyph, font c = some glyph ∧ logger.Fitting glyph

/-- Every step of a run is safe, and it ends in a state that meets a condition. -/
def AllSafe (font : Font) (final : Logger → Prop) : Logger → List ConsoleEvent → Prop
  | logger, [] => final logger
  | logger, event :: rest => logger.SafeAt font event ∧
    ∀ after, logger.apply font event = .ok after → AllSafe font final after rest

variable {font : Font} {final : Logger → Prop} {logger : Logger}

/-- A run that is safe returns. -/
theorem AllSafe.run {events : List ConsoleEvent} (safe : AllSafe font final logger events) :
    ∃ last, logger.run font events = .ok last ∧ final last := by
  induction events generalizing logger with
  | nil => exact ⟨logger, rfl, safe⟩
  | cons event rest ih =>
    obtain ⟨first, later⟩ := safe
    obtain ⟨after, ran, -⟩ := first.returns
    obtain ⟨last, ranRest, isFinal⟩ := ih (later after ran)
    refine ⟨last, ?_, isFinal⟩
    rw [Logger.run, List.foldlM_cons, ran]
    exact ranRest

/-- A safe run, then another from wherever the first ends. -/
theorem allSafe_append {events rest : List ConsoleEvent} :
    AllSafe font final logger (events ++ rest) ↔
      AllSafe font (fun middle => AllSafe font final middle rest) logger events := by
  induction events generalizing logger with
  | nil => exact Iff.rfl
  | cons event events ih =>
    refine and_congr Iff.rfl (forall_congr' fun after => imp_congr_right fun _ => ?_)
    exact ih

/-- A safe run that ends in a stronger condition. -/
theorem AllSafe.mono {stronger : Logger → Prop} {events : List ConsoleEvent}
    (safe : AllSafe font stronger logger events) (implies : ∀ last, stronger last → final last) :
    AllSafe font final logger events := by
  induction events generalizing logger with
  | nil => exact implies logger safe
  | cons event rest ih =>
    obtain ⟨first, later⟩ := safe
    exact ⟨first, fun after ran => ih (later after ran)⟩

/-- Every step of a safe run is reached and safe. -/
theorem AllSafe.at {done rest : List ConsoleEvent} {event : ConsoleEvent}
    (safe : AllSafe font final logger (done ++ event :: rest)) :
    ∃ reached, logger.run font done = .ok reached ∧ reached.SafeAt font event := by
  obtain ⟨reached, ran, first, -⟩ := (allSafe_append.mp safe).run
  exact ⟨reached, ran, first⟩

/-! ## Lines that begin with a glyph -/

/-- No newline follows another before a glyph; the first one needs a glyph before it unless the
line is settled. -/
def Paced : Bool → List Char → Prop
  | _, [] => True
  | settled, c :: rest =>
    if c = '\n' then settled = true ∧ Paced false rest
    else if c = '\r' then Paced settled rest
    else Paced true rest

/-- After a glyph a line may go on without a newline, and then end. -/
theorem paced_body {body rest : List Char} (oneLine : '\n' ∉ body) (paced : Paced false rest) :
    Paced true (body ++ '\n' :: rest) := by
  induction body with
  | nil => exact ⟨rfl, paced⟩
  | cons c body ih =>
    have different : c ≠ '\n' := fun same => oneLine (same ▸ List.mem_cons_self)
    have later := ih fun isIn => oneLine (List.mem_cons_of_mem _ isIn)
    simp only [List.cons_append, Paced, if_neg different]
    split <;> exact later

/-- The parts of `lines` have no newline. -/
theorem newline_notIn_lines {text line : List Char} (lineIn : line ∈ lines text) :
    '\n' ∉ line := by
  unfold lines at lineIn
  rcases List.mem_append.mp lineIn with ended | last
  · obtain ⟨part, partIn, rfl⟩ := List.mem_map.mp ended
    have clean := not_mem_of_mem_splitOn (List.dropLast_subset _ partIn)
    unfold stripReturn
    split
    · exact fun isIn => clean (List.dropLast_subset _ isIn)
    · exact clean
  · split at last
    · cases last
    · rename_i filled
      obtain rfl := List.mem_singleton.mp last
      have parts : text.splitOn '\n' ≠ [] := List.splitOn_ne_nil _ _
      rw [List.getLastD_eq_getLast?, List.getLast?_eq_some_getLast parts, Option.getD_some]
      exact not_mem_of_mem_splitOn (List.getLast_mem parts)

end Logger

namespace LogRecord

variable {record : LogRecord}

/-- The heading begins with a glyph and stays on its line. -/
theorem heading_eq (file : '\n' ∉ record.file) :
    ∃ tail, record.heading = '[' :: tail ∧ '\n' ∉ tail := by
  refine ⟨_, rfl, ?_⟩
  have level : '\n' ∉ record.level.asStr := by
    cases record.level <;> decide
  have digits : '\n' ∉ Nat.toDigits 10 record.line := fun isIn => by
    have isDigit := Nat.isDigit_of_mem_toDigits (by decide) (by decide) isIn
    revert isDigit
    decide
  have padded : ∀ width fill text, fill ≠ '\n' → '\n' ∉ text → '\n' ∉ padStart width fill text := by
    intro width fill text different absent isIn
    rcases List.mem_append.mp isIn with filled | inText
    · exact different (List.eq_of_mem_replicate filled).symm
    · exact absent inText
  simp only [List.mem_append, not_or]
  exact ⟨⟨⟨⟨⟨padded 5 ' ' _ (by decide) level, by decide⟩, padded 12 ' ' _ (by decide) file⟩,
    by decide⟩, padded 3 '0' _ (by decide) digits⟩, by decide⟩

/-- The lines of a record have no newline. -/
theorem newline_notIn_printed {line : List Char} (lineIn : line ∈ record.printed) :
    '\n' ∉ line := by
  rcases List.mem_append.mp lineIn with ofMessage | trailing
  · rcases List.mem_cons.mp ofMessage with rfl | later
    · cases isLines : lines record.message with
      | nil => exact List.not_mem_nil
      | cons first rest =>
        exact Logger.newline_notIn_lines (isLines ▸ List.mem_cons_self)
    · exact Logger.newline_notIn_lines (List.mem_of_mem_tail later)
  · split at trailing
    · obtain rfl := List.mem_singleton.mp trailing
      exact List.not_mem_nil
    · cases trailing

/-- The text of a record is paced: every line begins with a glyph. -/
theorem paced_text (file : '\n' ∉ record.file) : Logger.Paced false record.text := by
  obtain ⟨tail, isHeading, oneLine⟩ := heading_eq file
  suffices paced : ∀ texts : List (List Char), (∀ line ∈ texts, '\n' ∉ line) →
      Logger.Paced false (texts.flatMap record.lineText) from
    paced record.printed fun line lineIn => newline_notIn_printed lineIn
  intro texts clean
  induction texts with
  | nil => exact trivial
  | cons line rest ih =>
    have later := ih fun other otherIn => clean other (List.mem_cons_of_mem _ otherIn)
    have body : '\n' ∉ tail ++ line := by
      rw [List.mem_append, not_or]
      exact ⟨oneLine, clean line List.mem_cons_self⟩
    have shape : (line :: rest).flatMap record.lineText =
        '[' :: ((tail ++ line) ++ '\n' :: rest.flatMap record.lineText) := by
      simp [lineText, isHeading]
    rw [shape]
    exact Logger.paced_body body later

/-- The font has fitting glyphs for all that a record prints, and the file's name has no
newline. -/
def Covered (font : Font) (logger : Logger) (record : LogRecord) : Prop :=
  '\n' ∉ record.file ∧
    ∀ c ∈ record.text, c ≠ '\n' → c ≠ '\r' → logger.Printable font c

end LogRecord

/-! ## The console is safe -/

namespace Logger

variable {font : Font} {logger after : Logger}

/-- Which characters are printable depends on the geometry only. -/
theorem Printable.congr {c : Char} (printable : logger.Printable font c)
    (same : after.geometry = logger.geometry) : after.Printable font c := by
  obtain ⟨glyph, isGlyph, fitting⟩ := printable
  obtain ⟨hor, -, -, -, size, -⟩ := geometry_eq_iff.mp same
  exact ⟨glyph, isGlyph, by rw [size]; exact fitting.height, fitting.rows,
    by rw [hor]; exact fitting.narrow⟩

/-- A state of a run that began with the same screen: a line is on the screen or new. -/
structure Continues (start logger : Logger) : Prop where
  /-- The geometry is the same. -/
  geometry : logger.geometry = start.geometry
  /-- A line is on the screen or new. -/
  ready : logger.Ready

/-- Characters of a paced text are written safely. -/
theorem Screen.allSafe_chars {text : List Char} {settled : Bool} (screen : logger.Screen)
    (bright : logger.Bright) (room : logger.fontSize < logger.verRes) (ready : logger.Ready)
    (isSettled : settled = true → logger.Settled) (paced : Paced settled text)
    (printable : ∀ c ∈ text, c ≠ '\n' → c ≠ '\r' → logger.Printable font c) :
    AllSafe font logger.Continues logger (text.map .char) := by
  induction text generalizing logger settled with
  | nil => exact ⟨rfl, ready⟩
  | cons c rest ih =>
    -- The rest goes on from a state of the same screen and palette.
    have further : ∀ {after : Logger} {flag : Bool}, after.geometry = logger.geometry →
        after.palette = logger.palette → after.Ready → (flag = true → after.Settled) →
        Paced flag rest → AllSafe font logger.Continues after (rest.map .char) := by
      intro after flag same palette afterReady afterSettled afterPaced
      obtain ⟨-, ver, -, -, size, -⟩ := geometry_eq_iff.mp same
      refine (ih (screen.congr same) (bright.congr palette) (by omega) afterReady afterSettled
        afterPaced fun other otherIn notNewline notReturn => ?_).mono ?_
      · exact (printable other (List.mem_cons_of_mem _ otherIn) notNewline notReturn).congr same
      · exact fun last continues => ⟨continues.geometry.trans same, continues.ready⟩
    by_cases isNewline : c = '\n'
    · subst isNewline
      obtain ⟨isTrue, later⟩ : settled = true ∧ Paced false rest := paced
      have onScreen := isSettled isTrue
      have ran : logger.apply font (.char '\n') = .ok logger.newline := rfl
      refine ⟨⟨ready.low, ⟨_, ran, onScreen⟩, ?_⟩, fun after ranAgain => ?_⟩
      · intro other glyph same notNewline
        exact absurd (ConsoleEvent.char.inj same).symm notNewline
      · obtain rfl := Except.ok.inj (ran.symm.trans ranAgain)
        exact further rfl rfl (.inr ⟨onScreen, rfl⟩) (fun impossible => by cases impossible) later
    · by_cases isReturn : c = '\r'
      · subst isReturn
        have later : Paced settled rest := paced
        have ran : logger.apply font (.char '\r') = .ok logger.carriageReturn := rfl
        refine ⟨⟨ready.low, ⟨_, ran, ready.low⟩, ?_⟩, fun after ranAgain => ?_⟩
        · intro other glyph same _ notReturn
          exact absurd (ConsoleEvent.char.inj same).symm notReturn
        · obtain rfl := Except.ok.inj (ran.symm.trans ranAgain)
          exact further rfl rfl (.inr ⟨ready.low, rfl⟩) isSettled later
      · have later : Paced true rest := by
          simpa only [Paced, if_neg isNewline, if_neg isReturn] using paced
        obtain ⟨glyph, isGlyph, fitting⟩ := printable c List.mem_cons_self isNewline isReturn
        obtain ⟨after, ran, same, palette, onScreen⟩ :=
          screen.writeChar bright ready room isNewline isReturn isGlyph fitting
        have afterReady : after.Ready := .inl onScreen
        refine ⟨⟨ready.low, ⟨after, ran, afterReady.low⟩, ?_⟩, fun _ ranAgain => ?_⟩
        · intro other otherGlyph sameChar _ _ isOther
          obtain rfl := ConsoleEvent.char.inj sameChar
          obtain rfl := Option.some.inj (isGlyph.symm.trans isOther)
          obtain ⟨placed, placedRan, isPlaced, -⟩ := screen.makeRoom ready room fitting
          exact ⟨placed, placedRan, isPlaced⟩
        · obtain rfl := Except.ok.inj (ran.symm.trans ranAgain)
          exact further same palette afterReady (fun _ => onScreen) later

/-- A record is written safely. -/
theorem Screen.allSafe_record {record : LogRecord} (screen : logger.Screen)
    (room : logger.fontSize < logger.verRes) (ready : logger.Ready)
    (covered : record.Covered font logger) :
    AllSafe font logger.Continues logger record.events := by
  have ran : logger.apply font (.palette record.level) = .ok (logger.setPalette record.level) :=
    rfl
  refine ⟨⟨ready.low, ⟨_, ran, ready.low⟩, ?_⟩, fun after ranAgain => ?_⟩
  · intro c glyph impossible
    cases impossible
  · obtain rfl := Except.ok.inj (ran.symm.trans ranAgain)
    have same : (logger.setPalette record.level).geometry = logger.geometry := rfl
    refine ((screen.congr same).allSafe_chars (bright_setPalette _ _) room ready
      (fun impossible => by cases impossible) (record.paced_text covered.1) ?_).mono ?_
    · intro c cIn notNewline notReturn
      exact (covered.2 c cIn notNewline notReturn).congr same
    · exact fun last continues => ⟨continues.geometry, continues.ready⟩

/-- Records are written safely, one after another. -/
theorem Screen.allSafe_records {records : List LogRecord} (screen : logger.Screen)
    (room : logger.fontSize < logger.verRes) (ready : logger.Ready)
    (covered : ∀ record ∈ records, record.Covered font logger) :
    AllSafe font logger.Continues logger (records.flatMap LogRecord.events) := by
  induction records generalizing logger with
  | nil => exact ⟨rfl, ready⟩
  | cons record rest ih =>
    rw [List.flatMap_cons, allSafe_append]
    refine (screen.allSafe_record room ready (covered record List.mem_cons_self)).mono ?_
    intro middle continues
    have same := continues.geometry
    obtain ⟨-, ver, -, -, size, -⟩ := geometry_eq_iff.mp same
    refine (ih (screen.congr same) (by omega) continues.ready fun other otherIn => ?_).mono ?_
    · obtain ⟨file, printable⟩ := covered other (List.mem_cons_of_mem _ otherIn)
      exact ⟨file, fun c cIn notNewline notReturn =>
        (printable c cIn notNewline notReturn).congr same⟩
    · exact fun last later => ⟨later.geometry.trans same, later.ready⟩

/-! ## Screens of one line -/

/-- A glyph that was drawn changed bytes and the column only. -/
theorem geometry_writeRenderedChar {glyph : BitmapChar}
    (ran : logger.writeRenderedChar glyph = .ok after) : after.geometry = logger.geometry := by
  obtain ⟨drawn, loop, isAfter⟩ := exists_of_bind_ok ran
  obtain rfl := Except.ok.inj isAfter
  have redrawn : logger.Redrawn drawn := by
    refine kept_of_foldlM_ok logger.Redrawn (fun current row _ next redrawn ranRow => ?_)
      (.refl logger) loop
    refine kept_of_foldlM_ok logger.Redrawn (fun current byte _ next redrawn ranByte => ?_)
      redrawn ranRow
    obtain ⟨color, -, copied⟩ := exists_of_bind_ok ranByte
    exact redrawn.trans (copyFromSlice_ok copied).1
  exact redrawn.geometry_eq

/-- A scroll that returned changed bytes and the line only. -/
theorem geometry_scroll (ran : logger.scroll = .ok after) : after.geometry = logger.geometry := by
  obtain ⟨below, -, ran⟩ := exists_of_bind_ok ran
  obtain ⟨lines, -, ran⟩ := exists_of_bind_ok ran
  dsimp only at ran
  split at ran
  · obtain ⟨rows, -, ran⟩ := exists_of_bind_ok ran
    obtain ⟨copied, ranCopy, ran⟩ := exists_of_bind_ok ran
    obtain ⟨yPos, -, ran⟩ := exists_of_bind_ok ran
    obtain rfl := Except.ok.inj ran
    unfold copyToStart at ranCopy
    split at ranCopy
    · rename_i inside
      obtain ⟨_, again, redrawn, -⟩ := logger.copyToStart_returns inside
      rw [Logger.copyToStart, if_pos inside, ranCopy] at again
      obtain rfl := Except.ok.inj again
      rw [← redrawn.geometry_eq, geometry_eq_iff]
      exact ⟨rfl, rfl, rfl, rfl, rfl, List.length_mapIdx⟩
    · cases ranCopy
  · cases ran

/-- Every step that returned kept the geometry. -/
theorem geometry_apply {event : ConsoleEvent} (ran : logger.apply font event = .ok after) :
    after.geometry = logger.geometry := by
  cases event with
  | palette level =>
    obtain rfl := Except.ok.inj ran
    rfl
  | char c =>
    change logger.writeChar font c = .ok after at ran
    unfold writeChar at ran
    split at ran
    · obtain rfl := Except.ok.inj ran
      rfl
    · split at ran
      · obtain rfl := Except.ok.inj ran
        rfl
      · split at ran
        · cases ran
        · obtain ⟨placed, ranRoom, ranDraw⟩ := exists_of_bind_ok ran
          rw [geometry_writeRenderedChar ranDraw]
          obtain ⟨limit, -, ranRoom⟩ := exists_of_bind_ok ranRoom
          split at ranRoom
          · rw [geometry_scroll ranRoom, geometry_wrap]
          · obtain rfl := Except.ok.inj ranRoom
            rw [geometry_wrap]

/-- A run that returned kept the geometry. -/
theorem geometry_run {events : List ConsoleEvent} (ran : logger.run font events = .ok after) :
    after.geometry = logger.geometry :=
  kept_of_foldlM_ok (fun current => current.geometry = logger.geometry)
    (fun _ _ _ _ same step => (geometry_apply step).trans same) rfl ran

/-- Runs in two parts. -/
theorem run_append {events rest : List ConsoleEvent}
    (ran : logger.run font (events ++ rest) = .ok after) :
    ∃ middle, logger.run font events = .ok middle ∧ middle.run font rest = .ok after := by
  rw [run, List.foldlM_append] at ran
  exact exists_of_bind_ok ran

/-- A new line on a screen of one line lies below the screen, and the scroll for its first glyph
reads from the end of the framebuffer. -/
theorem Screen.makeRoom_below (screen : logger.Screen) (short : logger.verRes = logger.fontSize)
    (start : logger.xPos = 0) (deep : logger.fontSize ≤ logger.yPos) {glyph : BitmapChar}
    (fitting : logger.Fitting glyph) (placed : Logger) : logger.makeRoom glyph ≠ .ok placed := by
  have narrow := fitting.narrow
  have unwrapped : logger.wrap glyph = logger := if_neg (by omega)
  have limit : checkedSub logger.verRes logger.fontSize = .ok 0 := by
    rw [checkedSub, short, if_pos (Nat.le_refl _), Nat.sub_self]
  have positive := screen.font
  intro ran
  simp only [Logger.makeRoom, unwrapped, limit, bind, Except.bind] at ran
  rw [if_pos (by omega)] at ran
  obtain ⟨below, isBelow, ran⟩ := exists_of_bind_ok ran
  obtain ⟨lines, isLines, ran⟩ := exists_of_bind_ok ran
  have none : below = 0 := by
    unfold checkedSub at isBelow
    split at isBelow
    · have := Except.ok.inj isBelow
      omega
    · cases isBelow
  have whole : lines = logger.verRes := by
    rw [none, checkedSub, if_pos (Nat.zero_le _)] at isLines
    have := Except.ok.inj isLines
    omega
  dsimp only at ran
  have size : logger.verRes * logger.stride * logger.bytesPerPixel =
      logger.framebuffer.length := by
    rw [screen.bytes, screen.length, Nat.mul_comm _ 4, Nat.mul_comm logger.verRes, Nat.mul_assoc]
  rw [whole, size, if_neg (Nat.lt_irrefl _)] at ran
  cases ran

/-- A record of an empty message. -/
def emptyRecord : LogRecord := ⟨.info, [], [], 0⟩

/-- The steps of an empty record begin with a glyph. -/
theorem emptyRecord_events : ∃ tail, emptyRecord.events =
    .palette .info :: .char '[' :: (tail ++ [.char '\n']) := by
  have file : '\n' ∉ emptyRecord.file := List.not_mem_nil
  obtain ⟨tail, isHeading, -⟩ := LogRecord.heading_eq file
  have printed : emptyRecord.printed = [[]] := by decide
  have level : emptyRecord.level = .info := rfl
  refine ⟨tail.map .char, ?_⟩
  simp [LogRecord.events, LogRecord.text, printed, LogRecord.lineText, isHeading, level]

/-- On a screen of one line the second record stops the logger. -/
theorem Screen.run_twice (screen : logger.Screen) (short : logger.verRes = logger.fontSize)
    (printable : logger.Printable font '[') (final : Logger) :
    logger.run font ([emptyRecord, emptyRecord].flatMap LogRecord.events) ≠ .ok final := by
  intro ran
  obtain ⟨tail, isEvents⟩ := emptyRecord_events
  have shape : [emptyRecord, emptyRecord].flatMap LogRecord.events =
      (.palette .info :: .char '[' :: tail) ++ ([.char '\n', .palette .info] ++
        (.char '[' :: (tail ++ [.char '\n']))) := by
    simp [isEvents]
  rw [shape] at ran
  obtain ⟨first, ranFirst, ran⟩ := run_append ran
  obtain ⟨second, ranSecond, ran⟩ := run_append ran
  obtain rfl : first.newline.setPalette .info = second := Except.ok.inj ranSecond
  have same : (first.newline.setPalette .info).geometry = logger.geometry :=
    (geometry_run ranSecond).trans (geometry_run ranFirst)
  obtain ⟨-, ver, -, -, size, -⟩ := geometry_eq_iff.mp same
  obtain ⟨glyph, isGlyph, fitting⟩ := printable.congr same
  obtain ⟨third, ranGlyph, -⟩ := exists_of_bind_ok ran
  change Logger.writeChar font _ '[' = .ok third at ranGlyph
  rw [Logger.writeChar, if_neg (by decide), if_neg (by decide), isGlyph] at ranGlyph
  obtain ⟨placed, ranRoom, -⟩ := exists_of_bind_ok ranGlyph
  refine (screen.congr same).makeRoom_below (by rw [ver, size, short]) rfl ?_ fitting placed ranRoom
  exact Nat.le_add_left _ _

/-- `Logger::write` of records, one after another, takes the steps of the records. -/
theorem writes_eq_run (records : List LogRecord) (logger : Logger) :
    records.foldlM (write font) logger = logger.run font (records.flatMap LogRecord.events) := by
  induction records generalizing logger with
  | nil => rfl
  | cons record rest ih =>
    rw [List.foldlM_cons, List.flatMap_cons, run, List.foldlM_append]
    exact (congrArg (· >>= _) (write_eq_run font logger record)).trans (congrArg _ (funext ih))

/-- Whatever records are written, as long as the font covers them: every call returns, and every
step on the way is safe. -/
def ConsoleSafe (font : Font) (logger : Logger) : Prop :=
  ∀ records : List LogRecord, (∀ record ∈ records, record.Covered font logger) →
    (∃ last, records.foldlM (write font) logger = .ok last) ∧
    ∀ done event rest, records.flatMap LogRecord.events = done ++ event :: rest →
      ∃ reached, logger.run font done = .ok reached ∧ reached.SafeAt font event

/-- A console that begins at the top left of its screen is safe when the screen is higher than a
line, and with a font for the printable ASCII characters only then. -/
theorem console_safe_iff (font : Font) (logger : Logger) (screen : logger.Screen)
    (left : logger.xPos = 0) (top : logger.yPos = 0) :
    (logger.fontSize < logger.verRes → logger.ConsoleSafe font) ∧
    ((∀ c : Char, ' ' ≤ c → c ≤ '~' → logger.Printable font c) →
      (logger.ConsoleSafe font ↔ logger.fontSize < logger.verRes)) := by
  have enough : logger.fontSize < logger.verRes → logger.ConsoleSafe font := by
    intro room records covered
    have ready : logger.Ready := .inr ⟨by omega, left⟩
    have safe := screen.allSafe_records room ready covered
    refine ⟨?_, fun done event rest shape => ?_⟩
    · obtain ⟨last, ran, -⟩ := safe.run
      exact ⟨last, by rw [writes_eq_run, ran]⟩
    · rw [shape] at safe
      exact safe.at
  refine ⟨enough, fun ascii => ⟨fun safe => ?_, enough⟩⟩
  by_contra high
  have short : logger.verRes = logger.fontSize :=
    Nat.le_antisymm (Nat.le_of_not_lt high) screen.tall
  have covered : emptyRecord.Covered font logger := by
    refine ⟨List.not_mem_nil, fun c cIn notNewline _ => ?_⟩
    have range : (emptyRecord.text.all fun c => c ≠ '\n' → ' ' ≤ c ∧ c ≤ '~') = true := by decide
    obtain ⟨low, high⟩ := of_decide_eq_true (List.all_eq_true.mp range c cIn) notNewline
    exact ascii c low high
  obtain ⟨⟨last, ran⟩, -⟩ := safe [emptyRecord, emptyRecord] (by simpa using covered)
  rw [writes_eq_run] at ran
  exact screen.run_twice short (ascii '[' (by decide) (by decide)) last ran

/-- A font that draws every character as a block of eight by twenty pixels. -/
def blockFont : Font := fun _ => some ⟨8, List.replicate 20 (List.replicate 8 255)⟩

/-- A screen of 640 pixels in width and some lines in height. -/
def plainInfo (verRes : Nat) : GraphicInfo := ⟨(640, verRes), 640, .bgr, 4 * 640 * verRes⟩

/-- A new logger on a plain screen has the block font for all characters. -/
theorem plain_screen {verRes : Nat} (tall : 20 ≤ verRes) :
    ∃ logger, Logger.new (plainInfo verRes) (List.replicate (4 * 640 * verRes) 0) = .ok logger ∧
      logger.Screen ∧ logger.xPos = 0 ∧ logger.yPos = 0 ∧ logger.fontSize = 20 ∧
      logger.verRes = verRes ∧ ∀ c, logger.Printable blockFont c := by
  have pixels : 640 * verRes ≠ 0 := by omega
  have bytes : 4 * 640 * verRes / (640 * verRes) = 4 := by
    rw [Nat.mul_assoc]
    exact Nat.mul_div_cancel _ (by omega)
  refine ⟨_, if_neg pixels, ⟨bytes, ?_, Nat.le_refl _, show 0 < 20 by decide, tall⟩, rfl, rfl,
    rfl, rfl, ?_⟩
  · exact List.length_mapIdx.trans List.length_replicate
  · intro c
    refine ⟨_, rfl, ?_, fun row rowIn => ?_, show 8 < 640 by decide⟩
    · exact List.length_replicate
    · rw [List.eq_of_mem_replicate rowIn, List.length_replicate]

/-- A screen of 640 by 480 pixels is safe. -/
theorem console_safe_plain :
    ∃ logger, Logger.new (plainInfo 480) (List.replicate (4 * 640 * 480) 0) = .ok logger ∧
      logger.ConsoleSafe blockFont := by
  obtain ⟨logger, ran, screen, left, top, size, ver, -⟩ :=
    plain_screen (show 20 ≤ 480 by decide)
  exact ⟨logger, ran, (console_safe_iff blockFont logger screen left top).1 (by omega)⟩

/-- On a screen of 640 by 20 pixels the second record stops the logger. -/
theorem console_stops :
    ∃ logger, Logger.new (plainInfo 20) (List.replicate (4 * 640 * 20) 0) = .ok logger ∧
      logger.Screen ∧ (∀ c, logger.Printable blockFont c) ∧
      ∀ last, [emptyRecord, emptyRecord].foldlM (write blockFont) logger ≠ .ok last := by
  obtain ⟨logger, ran, screen, -, -, size, ver, printable⟩ := plain_screen (Nat.le_refl 20)
  refine ⟨logger, ran, screen, printable, fun last => ?_⟩
  rw [writes_eq_run]
  exact screen.run_twice (by omega) (printable '[') last

end Logger

end Canyon.Kernel
