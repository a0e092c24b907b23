import Mathlib.Data.Set.Disjoint
import Mathlib.Data.Set.Lattice
import Mathlib.Order.CompletePartialOrder
import Mathlib.Order.Interval.Set.Defs
import Canyon.Lib.Lists

/-!
# The logger's framebuffer

`Logger` keeps the geometry of the screen, the bytes of the framebuffer and the position of the
next glyph. It infers the size of a pixel from the size of the framebuffer and addresses pixels
by the stride. Multiplications and additions are exact: their results are at most the size of
the framebuffer, or they are rejected by the index checks.
-/

namespace Canyon.Kernel

/-- `PixelFormat`. -/
inductive PixelFormat where
  /-- `Rgb`. -/
  | rgb
  /-- `Bgr`. -/
  | bgr
  /-- `Bitmask`. -/
  | bitmask
  /-- `BltOnly`. -/
  | bltOnly
  deriving DecidableEq, Repr

/-- `Level`. -/
inductive Level where
  /-- `Error`. -/
  | error
  /-- `Warn`. -/
  | warn
  /-- `Info`. -/
  | info
  /-- `Debug`. -/
  | debug
  /-- `Trace`. -/
  | trace
  deriving DecidableEq, Repr

/-- `RGB`. -/
structure RGB where
  /-- `r`. -/
  r : UInt8
  /-- `g`. -/
  g : UInt8
  /-- `b`. -/
  b : UInt8
  deriving DecidableEq

namespace RGB

/-- `RGB::to_rgb_pixel`. -/
def toRgbPixel (rgb : RGB) : List UInt8 := [rgb.r, rgb.g, rgb.b, 0]

/-- `RGB::to_bgr_pixel`. -/
def toBgrPixel (rgb : RGB) : List UInt8 := [rgb.b, rgb.g, rgb.r, 0]

end RGB

/-- What stops the logger. -/
inductive LoggerFault where
  /-- `unwrap` of a character that the font does not have. -/
  | noGlyph
  /-- A subtraction below zero. -/
  | underflow
  /-- A slice index out of range. -/
  | index
  /-- `ptr::copy` outside the framebuffer. -/
  | copy
  /-- A division by zero. -/
  | division
  deriving DecidableEq, Repr

/-- `GraphicInfo`, with the mode's fields that the logger reads. -/
structure GraphicInfo where
  /-- `mode.resolution()`. -/
  resolution : Nat × Nat
  /-- `mode.stride()`. -/
  stride : Nat
  /-- `mode.pixel_format()`. -/
  pixelFormat : PixelFormat
  /-- `fb_size`. -/
  fbSize : Nat

/-- `Logger`. -/
structure Logger where
  /-- `hor_res`. -/
  horRes : Nat
  /-- `ver_res`. -/
  verRes : Nat
  /-- `format`. -/
  format : PixelFormat
  /-- `stride`. -/
  stride : Nat
  /-- `bytes_per_pixel`. -/
  bytesPerPixel : Nat
  /-- `font_size.val()`. -/
  fontSize : Nat
  /-- `palette`. -/
  palette : RGB
  /-- `framebuffer`. -/
  framebuffer : List UInt8
  /-- `x_pos`. -/
  xPos : Nat
  /-- `y_pos`. -/
  yPos : Nat

namespace Logger

/-- `Logger::BACKGROUND_PIXEL`. -/
def backgroundPixel : RGB := ⟨40, 44, 52⟩

/-- The bytes of a background pixel. -/
def background (logger : Logger) : List UInt8 :=
  match logger.format with
  | .rgb => backgroundPixel.toRgbPixel
  | .bgr => backgroundPixel.toBgrPixel
  | _ => [0, 0, 0, 0]

/-- `background[i % 4]`. -/
def backgroundByte (logger : Logger) (i : Nat) : UInt8 := logger.background.getD (i % 4) 0

/-- The loop that blanks the framebuffer from a byte on. -/
def blankFrom (logger : Logger) (start : Nat) : Logger :=
  { logger with framebuffer := logger.framebuffer.mapIdx fun i byte =>
      if start ≤ i then logger.backgroundByte i else byte }

/-- `Logger::clear`. -/
def clear (logger : Logger) : Logger := { logger with xPos := 0, yPos := 0 }.blankFrom 0

/-- `Logger::new`, on the bytes that the framebuffer holds. -/
def new (info : GraphicInfo) (memory : List UInt8) : Except LoggerFault Logger :=
  if info.resolution.1 * info.resolution.2 = 0 then .error .division
  else .ok <| clear
    { bytesPerPixel := info.fbSize / (info.resolution.1 * info.resolution.2)
      framebuffer := memory
      fontSize := 20
      palette := ⟨0, 0, 0⟩
      xPos := 0
      yPos := 0
      horRes := info.resolution.1
      verRes := info.resolution.2
      format := info.pixelFormat
      stride := info.stride }

/-- The colours of `Logger::set_palette`. -/
def levelRgb : Level → RGB
  | .error => ⟨210, 114, 119⟩
  | .warn => ⟨223, 193, 132⟩
  | .info => ⟨115, 173, 233⟩
  | .debug => ⟨161, 193, 129⟩
  | .trace => ⟨220, 223, 228⟩

/-- `Logger::set_palette`. -/
def setPalette (logger : Logger) (level : Level) : Logger :=
  { logger with palette := levelRgb level }

/-- One channel of `Logger::get_color`. -/
def channel (palette background intensity : UInt8) : Except LoggerFault UInt8 :=
  if background ≤ palette then
    .ok (.ofNat ((palette.toNat - background.toNat) * intensity.toNat / 255 + background.toNat))
  else .error .underflow

/-- `Logger::get_color`. -/
def getColor (logger : Logger) (intensity : UInt8) : Except LoggerFault (List UInt8) := do
  let red ← channel logger.palette.r backgroundPixel.r intensity
  let green ← channel logger.palette.g backgroundPixel.g intensity
  let blue ← channel logger.palette.b backgroundPixel.b intensity
  match logger.format with
  | .rgb => .ok [red, green, blue, 0]
  | .bgr => .ok [blue, green, red, 0]
  | _ => .ok [0, 0, 0, 0]

/-- `framebuffer[offset..(offset + count)].copy_from_slice(&color[..count])`. -/
def copyFromSlice (logger : Logger) (offset count : Nat) (color : List UInt8) :
    Except LoggerFault Logger :=
  if offset + count ≤ logger.framebuffer.length ∧ count ≤ color.length then
    .ok { logger with framebuffer :=
      logger.framebuffer.take offset ++ color.take count ++
        logger.framebuffer.drop (offset + count) }
  else .error .index

/-- `Logger::write_pixel`. -/
def writePixel (logger : Logger) (x y : Nat) (intensity : UInt8) : Except LoggerFault Logger := do
  let pixelOffset := y * logger.stride + x
  let color ← logger.getColor intensity
  let bytesPerPixel := logger.bytesPerPixel
  let byteOffset := pixelOffset * bytesPerPixel
  logger.copyFromSlice byteOffset bytesPerPixel color

/-! ## Colours -/

/-- Every channel of the palette is at least as bright as the background. -/
def Bright (logger : Logger) : Prop :=
  backgroundPixel.r ≤ logger.palette.r ∧ backgroundPixel.g ≤ logger.palette.g ∧
    backgroundPixel.b ≤ logger.palette.b

/-- The palettes of all levels are bright. -/
theorem bright_setPalette (logger : Logger) (level : Level) : (logger.setPalette level).Bright := by
  show backgroundPixel.r ≤ (levelRgb level).r ∧ backgroundPixel.g ≤ (levelRgb level).g ∧
    backgroundPixel.b ≤ (levelRgb level).b
  cases level <;> decide

variable {logger : Logger} {x y : Nat}

/-- A bright palette has a colour of four bytes for every intensity. -/
theorem Bright.getColor (bright : logger.Bright) (intensity : UInt8) :
    ∃ color, logger.getColor intensity = .ok color ∧ color.length = 4 := by
  obtain ⟨red, green, blue⟩ := bright
  simp only [Logger.getColor, channel, if_pos red, if_pos green, if_pos blue]
  cases logger.format <;> exact ⟨_, rfl, rfl⟩

/-! ## Bytes of a pixel -/

/-- The logger with other bytes in a framebuffer of the same size. -/
def Redrawn (logger after : Logger) : Prop :=
  ∃ framebuffer, framebuffer.length = logger.framebuffer.length ∧
    after = { logger with framebuffer }

/-- What copying a slice does to the framebuffer. -/
theorem copyFromSlice_ok {after : Logger} {offset count : Nat} {color : List UInt8}
    (ran : logger.copyFromSlice offset count color = .ok after) :
    logger.Redrawn after ∧
      (∀ k < count, after.framebuffer[offset + k]? = color[k]?) ∧
      ∀ i, i < offset ∨ offset + count ≤ i → after.framebuffer[i]? = logger.framebuffer[i]? := by
  unfold copyFromSlice at ran
  split at ran
  · rename_i inside
    obtain rfl := Except.ok.inj ran
    have before : (logger.framebuffer.take offset).length = offset :=
      List.length_take_of_le (by omega)
    have copied : (color.take count).length = count := List.length_take_of_le inside.2
    refine ⟨⟨_, ?_, rfl⟩, fun k small => ?_, fun i outside => ?_⟩
    · rw [List.length_append, List.length_append, before, copied, List.length_drop]
      omega
    · dsimp only
      rw [List.append_assoc, List.getElem?_append_right (by omega), before,
        Nat.add_sub_cancel_left, List.getElem?_append_left (by omega),
        List.getElem?_take_of_lt small]
    · dsimp only
      rcases outside with lower | upper
      · rw [List.append_assoc, List.getElem?_append_left (by omega),
          List.getElem?_take_of_lt lower]
      · rw [List.getElem?_append_right (by rw [List.length_append]; omega), List.length_append,
          before, copied, List.getElem?_drop, Nat.add_sub_cancel' upper]
  · cases ran

/-- Copying a slice within its bounds returns. -/
theorem copyFromSlice_returns {offset count : Nat} {color : List UInt8}
    (inside : offset + count ≤ logger.framebuffer.length) (enough : count ≤ color.length) :
    ∃ after, logger.copyFromSlice offset count color = .ok after :=
  ⟨_, if_pos ⟨inside, enough⟩⟩

/-- A pixel of the screen lies in the framebuffer. -/
theorem pixel_inside {horRes verRes stride : Nat} (padded : horRes ≤ stride) (column : x < horRes)
    (row : y < verRes) : 4 * (y * stride + x) + 4 ≤ 4 * stride * verRes := by
  have rows : (y + 1) * stride ≤ verRes * stride := Nat.mul_le_mul_right _ row
  rw [Nat.add_mul, Nat.one_mul] at rows
  rw [Nat.mul_assoc, Nat.mul_comm stride]
  omega

/-- Drawing a pixel with four bytes each changes the pixel's bytes only. -/
theorem writePixel_returns (bright : logger.Bright) (bytes : logger.bytesPerPixel = 4)
    (length : logger.framebuffer.length = 4 * logger.stride * logger.verRes)
    (padded : logger.horRes ≤ logger.stride) (column : x < logger.horRes) (row : y < logger.verRes)
    (intensity : UInt8) :
    ∃ color after, logger.getColor intensity = .ok color ∧ color.length = 4 ∧
      logger.writePixel x y intensity = .ok after ∧ logger.Redrawn after ∧
      (∀ k < 4, after.framebuffer[4 * (y * logger.stride + x) + k]? = color[k]?) ∧
      ∀ i, i < 4 * (y * logger.stride + x) ∨ 4 * (y * logger.stride + x) + 4 ≤ i →
        after.framebuffer[i]? = logger.framebuffer[i]? := by
  obtain ⟨color, isColor, four⟩ := bright.getColor intensity
  have inside := pixel_inside padded column row
  have room : 4 * (y * logger.stride + x) + 4 ≤ logger.framebuffer.length := by omega
  obtain ⟨after, ran⟩ := copyFromSlice_returns room four.ge
  refine ⟨color, after, isColor, four, ?_, copyFromSlice_ok ran⟩
  simp only [writePixel, isColor, bytes, Nat.mul_comm _ 4]
  exact ran

/-- A pixel of more than four bytes cannot be drawn: no colour has that many. -/
theorem writePixel_wide (bright : logger.Bright) (bytes : 4 < logger.bytesPerPixel) (x y : Nat)
    (intensity : UInt8) : logger.writePixel x y intensity = .error .index := by
  obtain ⟨color, isColor, four⟩ := bright.getColor intensity
  have short : ¬((y * logger.stride + x) * logger.bytesPerPixel + logger.bytesPerPixel ≤
      logger.framebuffer.length ∧ logger.bytesPerPixel ≤ color.length) := by omega
  simp only [writePixel, isColor]
  exact if_neg short

/-! ## Padded scanlines -/

/-- The bytes of a pixel. -/
def pixelBytes (stride x y : Nat) : Set Nat :=
  Set.Ico (4 * (y * stride + x)) (4 * (y * stride + x) + 4)

/-- The logger while it writes at a level, with any bytes in its framebuffer. -/
def drawing (logger : Logger) (level : Level) (framebuffer : List UInt8) : Logger :=
  { logger.setPalette level with framebuffer }

/-- Whatever level the logger writes at and whatever the framebuffer holds, every pixel of the
screen can be drawn, gets its colour and touches exactly its four bytes. -/
def DrawsPixels (logger : Logger) : Prop :=
  ∀ (level : Level) (framebuffer : List UInt8) (x y : Nat) (intensity : UInt8),
    framebuffer.length = logger.framebuffer.length → x < logger.horRes → y < logger.verRes →
    ∃ color after, (logger.drawing level framebuffer).getColor intensity = .ok color ∧
      color.length = 4 ∧
      (logger.drawing level framebuffer).writePixel x y intensity = .ok after ∧
      (logger.drawing level framebuffer).Redrawn after ∧
      (∀ k < 4, after.framebuffer[4 * (y * logger.stride + x) + k]? = color[k]?) ∧
      ∀ i, i ∉ pixelBytes logger.stride x y → after.framebuffer[i]? = framebuffer[i]?

/-- A logger whose pixels have at least four bytes draws them all in their own bytes if and only
if they have exactly four. -/
theorem drawsPixels_iff (wide : 0 < logger.horRes) (tall : 0 < logger.verRes)
    (padded : logger.horRes ≤ logger.stride)
    (length : logger.framebuffer.length = 4 * logger.stride * logger.verRes)
    (least : 4 ≤ logger.bytesPerPixel) : logger.DrawsPixels ↔ logger.bytesPerPixel = 4 := by
  have bright : ∀ level framebuffer, (logger.drawing level framebuffer).Bright :=
    fun level _ => bright_setPalette logger level
  constructor
  · intro draws
    obtain ⟨color, after, -, -, ran, -⟩ := draws .info logger.framebuffer 0 0 0 rfl wide tall
    by_contra other
    have many : 4 < (logger.drawing .info logger.framebuffer).bytesPerPixel :=
      Nat.lt_of_le_of_ne least (Ne.symm other)
    rw [writePixel_wide (bright _ _) many] at ran
    cases ran
  · intro four level framebuffer x y intensity sameLength column row
    have lengths : (logger.drawing level framebuffer).framebuffer.length =
        4 * logger.stride * logger.verRes := sameLength.trans length
    obtain ⟨color, after, isColor, isFour, ran, redrawn, inside, outside⟩ :=
      writePixel_returns (bright level framebuffer) four lengths padded column row intensity
    refine ⟨color, after, isColor, isFour, ran, redrawn, inside, fun i notIn => outside i ?_⟩
    rw [pixelBytes, Set.mem_Ico] at notIn
    show i < 4 * (y * logger.stride + x) ∨ 4 * (y * logger.stride + x) + 4 ≤ i
    omega

/-- The bytes of different pixels of padded scanlines do not overlap. -/
theorem disjoint_pixelBytes {horRes stride otherX otherY : Nat} (padded : horRes ≤ stride)
    (column : x < horRes) (otherColumn : otherX < horRes) (different : (x, y) ≠ (otherX, otherY)) :
    Disjoint (pixelBytes stride x y) (pixelBytes stride otherX otherY) := by
  have apart : y * stride + x ≠ otherY * stride + otherX := by
    intro same
    have rows : y = otherY := by
      rcases Nat.lt_trichotomy y otherY with less | equal | greater
      · have step : (y + 1) * stride ≤ otherY * stride := Nat.mul_le_mul_right _ less
        rw [Nat.add_mul] at step
        omega
      · exact equal
      · have step : (otherY + 1) * stride ≤ y * stride := Nat.mul_le_mul_right _ greater
        rw [Nat.add_mul] at step
        omega
    subst rows
    exact different (by rw [Nat.add_left_cancel same])
  rw [Set.disjoint_left]
  intro i inLeft inRight
  rw [pixelBytes, Set.mem_Ico] at inLeft inRight
  omega

/-- `Logger::new` returns when the screen has pixels. -/
theorem new_returns (info : GraphicInfo) (memory : List UInt8)
    (wide : 0 < info.resolution.1) (tall : 0 < info.resolution.2) :
    ∃ logger, Logger.new info memory = .ok logger ∧ logger.horRes = info.resolution.1 ∧
      logger.verRes = info.resolution.2 ∧ logger.stride = info.stride ∧
      logger.bytesPerPixel = info.fbSize / (info.resolution.1 * info.resolution.2) ∧
      logger.framebuffer.length = memory.length := by
  have pixels : info.resolution.1 * info.resolution.2 ≠ 0 :=
    Nat.mul_ne_zero (by omega) (by omega)
  exact ⟨_, if_neg pixels, rfl, rfl, rfl, rfl, List.length_mapIdx⟩

/-- `Logger::new` returns for every mode of 32 bits with padded scanlines, and its logger draws
every pixel in the pixel's own bytes if and only if the padding is less than a quarter of the
width; the bytes of different pixels do not overlap. -/
theorem draws_pixels_iff (info : GraphicInfo) (memory : List UInt8)
    (wide : 0 < info.resolution.1) (tall : 0 < info.resolution.2)
    (padded : info.resolution.1 ≤ info.stride)
    (size : info.fbSize = 4 * info.stride * info.resolution.2)
    (length : memory.length = info.fbSize) :
    ∃ logger, Logger.new info memory = .ok logger ∧
      (logger.DrawsPixels ↔ 4 * info.stride < 5 * info.resolution.1) ∧
      ∀ x y otherX otherY, x < info.resolution.1 → otherX < info.resolution.1 →
        (x, y) ≠ (otherX, otherY) →
        Disjoint (pixelBytes info.stride x y) (pixelBytes info.stride otherX otherY) := by
  obtain ⟨logger, ran, isHor, isVer, isStride, isBytes, isLength⟩ :=
    new_returns info memory wide tall
  refine ⟨logger, ran, ?_, fun x y otherX otherY column otherColumn different =>
    disjoint_pixelBytes padded column otherColumn different⟩
  have bytes : logger.bytesPerPixel = 4 * info.stride / info.resolution.1 := by
    rw [isBytes, size, Nat.mul_div_mul_right _ _ tall]
  have least : 4 ≤ 4 * info.stride / info.resolution.1 :=
    (Nat.le_div_iff_mul_le wide).mpr (Nat.mul_le_mul_left 4 padded)
  have quarter : 4 * info.stride / info.resolution.1 < 5 ↔
      4 * info.stride < 5 * info.resolution.1 := Nat.div_lt_iff_lt_mul wide
  have lengths : logger.framebuffer.length = 4 * logger.stride * logger.verRes := by
    rw [isLength, length, size, isStride, isVer]
  have drawn := drawsPixels_iff (by rw [isHor]; exact wide) (by rw [isVer]; exact tall)
    (by rw [isHor, isStride]; exact padded) lengths (by rw [bytes]; exact least)
  rw [drawn, bytes]
  omega

/-- A screen of five by two pixels with scanlines of six: the last pixel of the second line is drawn
in the bytes from 40 on and nowhere else, and the bytes of the lines are apart. -/
theorem draws_pixels_padded :
    ∃ logger, Logger.new ⟨(5, 2), 6, .bgr, 48⟩ (List.replicate 48 0) = .ok logger ∧
      logger.DrawsPixels ∧
      (∃ after, (logger.setPalette .info).writePixel 4 1 255 = .ok after ∧
        (∀ k < 4, after.framebuffer[40 + k]? = [233, 173, 115, 0][k]?) ∧
        ∀ i, i < 40 ∨ 44 ≤ i → after.framebuffer[i]? = logger.framebuffer[i]?) ∧
      Disjoint (pixelBytes 6 4 0) (pixelBytes 6 0 1) := by
  obtain ⟨logger, ran, drawn, apart⟩ := draws_pixels_iff ⟨(5, 2), 6, .bgr, 48⟩
    (List.replicate 48 0) (by decide) (by decide) (by decide) (by decide) (by decide)
  have draws := drawn.mpr (by decide)
  have isLogger := ran
  rw [Logger.new, if_neg (by decide)] at isLogger
  obtain rfl := Except.ok.inj isLogger
  refine ⟨_, ran, draws, ?_, apart 4 0 0 1 (by decide) (by decide) (by decide)⟩
  obtain ⟨color, after, isColor, -, wrote, -, inside, outside⟩ :=
    draws .info _ 4 1 255 rfl (show 4 < 5 by decide) (show 1 < 2 by decide)
  obtain rfl : [233, 173, 115, 0] = color := Except.ok.inj isColor
  refine ⟨after, wrote, inside, fun i away => outside i ?_⟩
  rintro ⟨lower, upper⟩
  have first : 40 ≤ i := lower
  have last : i < 44 := upper
  omega

/-- A mode of 800 by 600 pixels with scanlines of 1024: the logger takes a pixel to have five
bytes, and cannot draw any. -/
theorem padded_mode_fails :
    ∃ logger, Logger.new ⟨(800, 600), 1024, .bgr, 4 * 1024 * 600⟩
        (List.replicate (4 * 1024 * 600) 0) = .ok logger ∧
      logger.bytesPerPixel = 5 ∧
      (logger.setPalette .info).writePixel 0 0 255 = .error .index := by
  obtain ⟨logger, ran, -, -, -, isBytes, -⟩ := new_returns ⟨(800, 600), 1024, .bgr, 4 * 1024 * 600⟩
    (List.replicate (4 * 1024 * 600) 0) (by decide) (by decide)
  have five : logger.bytesPerPixel = 5 := isBytes
  refine ⟨logger, ran, five, writePixel_wide (bright_setPalette _ _) ?_ _ _ _⟩
  show 4 < logger.bytesPerPixel
  omega

end Logger

end Canyon.Kernel
