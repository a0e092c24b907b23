import Canyon.Kernel.Console

/-!
# What the console shows

Think of an endless page on which the text is printed line below line, in the colour of each record,
and of a window as high as the screen that follows the last glyph. The framebuffer is what the
window shows. Scrolling, which moves bytes and blanks others, is then moving the window: nothing
that is still in view is lost or drawn twice.
-/

namespace Canyon.Kernel

open Canyon.Lib

/-! ## The page -/

/-- What the window shows and how the text runs. -/
structure Paper where
  /-- Columns of a line, in pixels. -/
  width : Nat
  /-- Rows of the window, in pixels. -/
  view : Nat
  /-- Rows of a line, in pixels. -/
  line : Nat

/-- A page with text on it. -/
structure Page where
  /-- The colour of each pixel, by column and row. -/
  ink : Nat → Nat → List UInt8
  /-- The colour of the pen for each intensity. -/
  pen : UInt8 → List UInt8
  /-- The column of the next glyph. -/
  column : Nat
  /-- The first row of the line. -/
  row : Nat
  /-- The first row of the window. -/
  top : Nat

namespace Page

/-- An empty page. -/
def blank (background : List UInt8) : Page :=
  ⟨fun _ _ => background, fun _ => background, 0, 0, 0⟩

/-- The pen goes to the start of the next line. -/
def feed (paper : Paper) (page : Page) : Page :=
  { page with column := 0, row := page.row + paper.line }

/-- A line without room for a glyph is left. -/
def turn (paper : Paper) (glyph : BitmapChar) (page : Page) : Page :=
  if page.column + glyph.width ≥ paper.width then page.feed paper else page

/-- The intensity that a glyph in some place gives to a pixel. -/
def mark (glyph : BitmapChar) (column row x y : Nat) : Option UInt8 :=
  if column ≤ x ∧ row ≤ y then glyph.bitmap[y - row]?.bind (·[x - column]?) else none

/-- Only the place on the glyph matters. -/
theorem mark_add (glyph : BitmapChar) (column row x y shift : Nat) :
    mark glyph column (row + shift) x (y + shift) = mark glyph column row x y := by
  unfold mark
  rw [Nat.add_sub_add_right]
  simp only [Nat.add_le_add_iff_right]

/-- A glyph gives nothing below its last row. -/
theorem mark_below {glyph : BitmapChar} {column row x y : Nat}
    (below : row + glyph.bitmap.length ≤ y) : mark glyph column row x y = none := by
  unfold mark
  rw [List.getElem?_eq_none (by omega)]
  split <;> rfl

/-- The window goes down so far that the line is in view. -/
def follow (paper : Paper) (page : Page) : Page :=
  { page with top := max page.top (page.row + paper.line - paper.view) }

/-- A glyph is printed. -/
def print (glyph : BitmapChar) (page : Page) : Page :=
  { page with
    ink := fun x y => ((mark glyph page.column page.row x y).map page.pen).getD (page.ink x y)
    column := page.column + glyph.width }

/-- A character is printed. -/
def write (paper : Paper) (font : Font) (page : Page) (c : Char) : Page :=
  if c = '\n' then page.feed paper
  else if c = '\r' then { page with column := 0 }
  else match font c with
    | none => page
    | some glyph => ((page.turn paper glyph).follow paper).print glyph

end Page

/-- The colour between the background and the colour of a level. -/
def blend (background colour intensity : UInt8) : UInt8 :=
  .ofNat (background.toNat + (colour.toNat - background.toNat) * intensity.toNat / 255)

/-- The pen of a level. -/
def Level.pen (format : PixelFormat) (level : Level) (intensity : UInt8) : List UInt8 :=
  let colour := Logger.levelRgb level
  let red := blend Logger.backgroundPixel.r colour.r intensity
  let green := blend Logger.backgroundPixel.g colour.g intensity
  let blue := blend Logger.backgroundPixel.b colour.b intensity
  match format with
  | .rgb => [red, green, blue, 0]
  | .bgr => [blue, green, red, 0]
  | _ => [0, 0, 0, 0]

namespace Page

/-- One step of the console on the page. -/
def apply (paper : Paper) (format : PixelFormat) (font : Font) (page : Page) :
    ConsoleEvent → Page
  | .palette level => { page with pen := level.pen format }
  | .char c => page.write paper font c

/-- Steps of the console on the page. -/
def run (paper : Paper) (format : PixelFormat) (font : Font) (page : Page)
    (events : List ConsoleEvent) : Page :=
  events.foldl (apply paper format font) page

end Page

namespace Logger

/-- A level that is set gives its pen. -/
theorem getColor_setPalette (logger : Logger) (level : Level) (intensity : UInt8) :
    (logger.setPalette level).getColor intensity = .ok (level.pen logger.format intensity) := by
  have mixes : ∀ background colour : UInt8, background ≤ colour →
      channel colour background intensity = .ok (blend background colour intensity) := by
    intro background colour brighter
    rw [channel, if_pos brighter, blend, Nat.add_comm]
  obtain ⟨red, green, blue⟩ := logger.bright_setPalette level
  have format : (logger.setPalette level).format = logger.format := rfl
  simp only [getColor, mixes _ _ red, mixes _ _ green, mixes _ _ blue, format, Level.pen]
  cases logger.format <;> rfl

/-! ## Pixels -/

/-- The bytes of a pixel. -/
def pixel (logger : Logger) (x y : Nat) : List UInt8 :=
  (logger.framebuffer.drop (4 * (y * logger.stride + x))).take 4

variable {logger after : Logger}

/-- A pixel is its four bytes. -/
theorem pixel_eq {x y : Nat} {color : List UInt8} (four : color.length = 4)
    (bytes : ∀ k < 4, logger.framebuffer[4 * (y * logger.stride + x) + k]? = color[k]?) :
    logger.pixel x y = color := by
  apply List.ext_getElem?
  intro k
  unfold pixel
  by_cases inside : k < 4
  · rw [List.getElem?_take_of_lt inside, List.getElem?_drop, bytes k inside]
  · rw [List.getElem?_take_eq_none (by omega), List.getElem?_eq_none (by omega)]

/-- Pixels are equal when their bytes are. -/
theorem pixel_congr {x y otherX otherY : Nat}
    (bytes : ∀ k < 4, after.framebuffer[4 * (y * after.stride + x) + k]? =
      logger.framebuffer[4 * (otherY * logger.stride + otherX) + k]?) :
    after.pixel x y = logger.pixel otherX otherY := by
  apply List.ext_getElem?
  intro k
  unfold pixel
  by_cases inside : k < 4
  · rw [List.getElem?_take_of_lt inside, List.getElem?_take_of_lt inside, List.getElem?_drop,
      List.getElem?_drop, bytes k inside]
  · rw [List.getElem?_take_eq_none (by omega), List.getElem?_take_eq_none (by omega)]

/-- Some pixels are drawn, and all others stay. -/
structure Drew (logger after : Logger) (ink : Nat → Nat → Option (List UInt8)) : Prop where
  /-- Nothing but the framebuffer changes. -/
  redrawn : logger.Redrawn after
  /-- The pixels of the screen. -/
  pixels : ∀ x < logger.horRes, ∀ y, after.pixel x y = (ink x y).getD (logger.pixel x y)

/-- Nothing is drawn. -/
theorem Drew.refl (logger : Logger) : logger.Drew logger fun _ _ => none :=
  ⟨.refl logger, fun _ _ _ => rfl⟩

/-- What is drawn later covers what was drawn before. -/
theorem Drew.trans {middle : Logger} {first second : Nat → Nat → Option (List UInt8)}
    (drew : logger.Drew middle first) (again : middle.Drew after second) :
    logger.Drew after fun x y => second x y <|> first x y := by
  obtain ⟨horRes, -⟩ := geometry_eq_iff.mp drew.redrawn.geometry_eq
  refine ⟨drew.redrawn.trans again.redrawn, ?_⟩
  intro x inside y
  rw [again.pixels x (horRes ▸ inside) y, drew.pixels x inside y]
  cases second x y <;> rfl

/-- What is drawn depends on the screen only. -/
theorem Drew.congr {ink other : Nat → Nat → Option (List UInt8)} (drew : logger.Drew after ink)
    (same : ∀ x < logger.horRes, ∀ y, other x y = ink x y) : logger.Drew after other := by
  refine ⟨drew.redrawn, ?_⟩
  intro x inside y
  rw [drew.pixels x inside y, same x inside y]

/-- One pixel is drawn. -/
theorem Screen.drew_pixel (screen : logger.Screen) (bright : logger.Bright) {x y : Nat}
    (column : x < logger.horRes) (row : y < logger.verRes) {intensity : UInt8}
    {color : List UInt8} (isColor : logger.getColor intensity = .ok color) :
    ∃ after, logger.writePixel x y intensity = .ok after ∧
      logger.Drew after fun otherX otherY =>
        if otherX = x ∧ otherY = y then some color else none := by
  obtain ⟨found, after, isFound, four, ran, redrawn, drawn, others⟩ :=
    writePixel_returns bright screen.bytes screen.length screen.padded column row intensity
  obtain rfl := Except.ok.inj (isColor.symm.trans isFound)
  obtain ⟨-, -, stride, -⟩ := geometry_eq_iff.mp redrawn.geometry_eq
  refine ⟨after, ran, redrawn, ?_⟩
  intro otherX inside otherY
  split
  · rename_i same
    obtain ⟨rfl, rfl⟩ := same
    apply pixel_eq four
    rw [stride]
    exact drawn
  · rename_i different
    apply pixel_congr
    rw [stride]
    intro k small
    apply others
    have apart : Disjoint (pixelBytes logger.stride x y) (pixelBytes logger.stride otherX otherY) :=
      disjoint_pixelBytes screen.padded column inside
        fun same => different ⟨(Prod.mk.inj same).1.symm, (Prod.mk.inj same).2.symm⟩
    have here :
        4 * (otherY * logger.stride + otherX) + k ∈ pixelBytes logger.stride otherX otherY :=
      Set.mem_Ico.mpr ⟨by omega, by omega⟩
    have outside := Set.disjoint_right.mp apart here
    rw [pixelBytes, Set.mem_Ico] at outside
    omega

/-- A row of a glyph is drawn. -/
theorem Screen.drew_row {row : List UInt8} {start y : Nat} {pen : UInt8 → List UInt8}
    (screen : logger.Screen) (bright : logger.Bright)
    (inked : ∀ intensity, logger.getColor intensity = .ok (pen intensity))
    (columns : logger.xPos + (start + row.length) ≤ logger.horRes)
    (inside : logger.yPos + y < logger.verRes) :
    ∃ drawn, (row.zipIdx start).foldlM (fun logger byte =>
        Logger.writePixel logger (logger.xPos + byte.2) (logger.yPos + y) byte.1) logger =
          .ok drawn ∧
      logger.Drew drawn fun otherX otherY =>
        if logger.xPos + start ≤ otherX ∧ otherY = logger.yPos + y then
          row[otherX - (logger.xPos + start)]?.map pen
        else none := by
  induction row generalizing logger start with
  | nil =>
    refine ⟨logger, rfl, (Drew.refl logger).congr ?_⟩
    intro otherX _ otherY
    split <;> rfl
  | cons byte rest ih =>
    rw [List.length_cons] at columns
    obtain ⟨middle, ran, drew⟩ := screen.drew_pixel bright
      (show logger.xPos + start < logger.horRes by omega) inside (inked byte)
    have same := drew.redrawn.geometry_eq
    obtain ⟨horRes, verRes, -⟩ := geometry_eq_iff.mp same
    obtain ⟨xPos, yPos, palette⟩ := drew.redrawn.fields
    have inkedMiddle : ∀ intensity, middle.getColor intensity = .ok (pen intensity) := by
      obtain ⟨framebuffer, -, rfl⟩ := drew.redrawn
      exact inked
    obtain ⟨drawn, ranRest, drewRest⟩ := @ih middle (start + 1) (screen.congr same)
      (bright.congr palette) inkedMiddle (by omega) (by omega)
    refine ⟨drawn, ?_, (drew.trans drewRest).congr ?_⟩
    · rw [List.zipIdx_cons, List.foldlM_cons]
      simp only [ran, bind, Except.bind]
      exact ranRest
    · intro otherX _ otherY
      rw [xPos, yPos]
      by_cases onRow : otherY = logger.yPos + y
      · rcases Nat.lt_trichotomy otherX (logger.xPos + start) with left | here | right
        · rw [if_neg (by omega), if_neg (by omega), if_neg (by omega)]
          rfl
        · rw [if_pos ⟨by omega, onRow⟩, if_neg (by omega), if_pos ⟨here, onRow⟩, here, Nat.sub_self]
          rfl
        · rw [if_pos ⟨by omega, onRow⟩, if_pos ⟨by omega, onRow⟩, if_neg (by omega)]
          have next : otherX - (logger.xPos + start) =
              otherX - (logger.xPos + (start + 1)) + 1 := by omega
          rw [next, List.getElem?_cons_succ]
          simp
      · rw [if_neg (fun both => onRow both.2), if_neg (fun both => onRow both.2),
          if_neg (fun both => onRow both.2)]
        rfl

/-- Rows of a glyph are drawn, one below the other. -/
theorem Screen.drew_rows {bitmap : List (List UInt8)} {start width : Nat}
    {pen : UInt8 → List UInt8} (screen : logger.Screen) (bright : logger.Bright)
    (inked : ∀ intensity, logger.getColor intensity = .ok (pen intensity))
    (wide : ∀ row ∈ bitmap, row.length = width) (columns : logger.xPos + width ≤ logger.horRes)
    (inside : logger.yPos + (start + bitmap.length) ≤ logger.verRes) :
    ∃ drawn, (bitmap.zipIdx start).foldlM (fun logger row => Logger.writeRow logger row.2 row.1)
        logger = .ok drawn ∧
      logger.Drew drawn fun x y =>
        if logger.xPos ≤ x ∧ logger.yPos + start ≤ y then
          (bitmap[y - (logger.yPos + start)]?.bind (·[x - logger.xPos]?)).map pen
        else none := by
  induction bitmap generalizing logger start with
  | nil =>
    refine ⟨logger, rfl, (Drew.refl logger).congr ?_⟩
    intro x _ y
    split <;> rfl
  | cons row rest ih =>
    rw [List.length_cons] at inside
    have length := wide row List.mem_cons_self
    obtain ⟨middle, ran, drew⟩ := @Screen.drew_row logger row 0 start pen screen bright inked
      (by omega) (by omega)
    have same := drew.redrawn.geometry_eq
    obtain ⟨horRes, verRes, -⟩ := geometry_eq_iff.mp same
    obtain ⟨xPos, yPos, palette⟩ := drew.redrawn.fields
    have inkedMiddle : ∀ intensity, middle.getColor intensity = .ok (pen intensity) := by
      obtain ⟨framebuffer, -, rfl⟩ := drew.redrawn
      exact inked
    obtain ⟨drawn, ranRest, drewRest⟩ := @ih middle (start + 1) (screen.congr same)
      (bright.congr palette) inkedMiddle (fun row rowIn => wide row (List.mem_cons_of_mem _ rowIn))
      (by omega) (by omega)
    refine ⟨drawn, ?_, (drew.trans drewRest).congr ?_⟩
    · rw [List.zipIdx_cons, List.foldlM_cons]
      simp only [Logger.writeRow, ran, bind, Except.bind]
      exact ranRest
    · intro x _ y
      rw [xPos, yPos]
      by_cases onGlyph : logger.xPos ≤ x
      · rcases Nat.lt_trichotomy y (logger.yPos + start) with above | here | below
        · rw [if_neg (by omega), if_neg (by omega), if_neg (by omega)]
          rfl
        · rw [if_pos ⟨onGlyph, by omega⟩, if_neg (by omega), if_pos ⟨by omega, here⟩, here,
            Nat.sub_self]
          rfl
        · rw [if_pos ⟨onGlyph, by omega⟩, if_pos ⟨onGlyph, by omega⟩, if_neg (by omega)]
          have next : y - (logger.yPos + start) = y - (logger.yPos + (start + 1)) + 1 := by omega
          rw [next, List.getElem?_cons_succ]
          simp
      · rw [if_neg (fun both => onGlyph both.1), if_neg (fun both => onGlyph both.1),
          if_neg (fun both => onGlyph both.1)]
        rfl

/-- A glyph is drawn. -/
theorem Screen.drew_glyph {glyph : BitmapChar} {pen : UInt8 → List UInt8}
    (screen : logger.Screen) (bright : logger.Bright)
    (inked : ∀ intensity, logger.getColor intensity = .ok (pen intensity))
    (fitting : logger.Fitting glyph) (inside : logger.Inside glyph) :
    ∃ drawn, logger.writeRenderedChar glyph = .ok { drawn with xPos := drawn.xPos + glyph.width } ∧
      logger.Drew drawn fun x y => (Page.mark glyph logger.xPos logger.yPos x y).map pen := by
  have rows := inside.rows
  have height := fitting.height
  obtain ⟨drawn, ran, drew⟩ := @Screen.drew_rows logger glyph.bitmap 0 glyph.width pen screen bright
    inked fitting.rows inside.columns (by omega)
  refine ⟨drawn, ?_, drew.congr ?_⟩
  · rw [Logger.writeRenderedChar, ran]
    rfl
  · intro x _ y
    rw [Nat.add_zero, Page.mark, apply_ite (Option.map pen)]
    rfl

/-! ## The window -/

/-- The paper that a screen is a window on. -/
def paper (logger : Logger) : Paper := ⟨logger.horRes, logger.verRes, logger.fontSize⟩

/-- The screen is the window on a page, which is blank below the line. -/
structure Shows (logger : Logger) (page : Page) : Prop where
  /-- The next glyph is in the same column. -/
  column : logger.xPos = page.column
  /-- The line is the same, as far below the top of the window. -/
  row : logger.yPos + page.top = page.row
  /-- The pixels of the screen are those in the window. -/
  pixels : ∀ x < logger.horRes, ∀ y < logger.verRes,
    logger.pixel x y = page.ink x (y + page.top)
  /-- Nothing is printed below the line. -/
  clear : ∀ x < logger.horRes, ∀ y, page.row + logger.fontSize ≤ y →
    page.ink x y = logger.background
  /-- Nothing is printed on a line that is not in the window yet. -/
  fresh : logger.verRes < logger.yPos + logger.fontSize → ∀ x < logger.horRes, ∀ y,
    page.row ≤ y → page.ink x y = logger.background

/-- The pen has the colours of the logger. -/
structure Inked (logger : Logger) (page : Page) : Prop where
  /-- The palette is bright. -/
  bright : logger.Bright
  /-- The colours are the same. -/
  colours : ∀ intensity, logger.getColor intensity = .ok (page.pen intensity)

/-- The colours depend on the palette and the format only. -/
theorem Inked.congr {page other : Page} (inked : logger.Inked page)
    (palette : after.palette = logger.palette) (format : after.format = logger.format)
    (pen : other.pen = page.pen) : after.Inked other := by
  refine ⟨inked.bright.congr palette, ?_⟩
  intro intensity
  rw [pen, ← inked.colours intensity]
  simp only [getColor, palette, format]

variable {page : Page}

/-- A new line. -/
theorem Shows.newline (shows : logger.Shows page) :
    logger.newline.Shows (page.feed logger.paper) where
  column := rfl
  row := by
    have row := shows.row
    show logger.yPos + logger.fontSize + page.top = page.row + logger.fontSize
    omega
  pixels := shows.pixels
  clear := by
    intro x inside y below
    change page.row + logger.fontSize + logger.fontSize ≤ y at below
    exact shows.clear x inside y (by omega)
  fresh := fun _ => shows.clear

/-- The line again from its start. -/
theorem Shows.carriageReturn (shows : logger.Shows page) :
    logger.carriageReturn.Shows { page with column := 0 } where
  column := rfl
  row := shows.row
  pixels := shows.pixels
  clear := shows.clear
  fresh := shows.fresh

/-- A line without room is left on both. -/
theorem Shows.wrap (shows : logger.Shows page) (glyph : BitmapChar) :
    (logger.wrap glyph).Shows (page.turn logger.paper glyph) := by
  unfold Logger.wrap Page.turn
  rw [shows.column]
  change Shows (if page.column + glyph.width ≥ logger.horRes then _ else _)
    (if page.column + glyph.width ≥ logger.horRes then _ else _)
  split
  · exact shows.newline
  · exact shows

/-- A pixel is a part of its scanline. -/
theorem pixel_eq_scanline {x y : Nat} (inside : x < logger.stride) :
    logger.pixel x y = ((logger.scanline y).drop (4 * x)).take 4 := by
  unfold pixel scanline
  rw [List.drop_take, List.drop_drop, List.take_take, Nat.min_eq_left (by omega)]
  congr 2
  rw [Nat.mul_add, Nat.mul_left_comm]

/-- A blank pixel. -/
theorem pixel_eq_background {x y : Nat}
    (bytes : ∀ k < 4, logger.framebuffer[4 * (y * logger.stride + x) + k]? =
      some (logger.backgroundByte (4 * (y * logger.stride + x) + k))) :
    logger.pixel x y = logger.background := by
  have four : logger.background.length = 4 := by
    unfold background
    split <;> rfl
  apply pixel_eq four
  intro k small
  rw [bytes k small, backgroundByte, Nat.mul_add_mod, Nat.mod_eq_of_lt small,
    List.getD_eq_getElem?_getD, List.getElem?_eq_getElem (four ▸ small), Option.getD_some]

/-- What a scroll leaves alone. -/
theorem Scrolled.fields (scrolled : logger.Scrolled after) :
    after.horRes = logger.horRes ∧ after.verRes = logger.verRes ∧
      after.fontSize = logger.fontSize ∧ after.stride = logger.stride ∧
      after.xPos = logger.xPos ∧ after.palette = logger.palette ∧ after.format = logger.format := by
  obtain ⟨framebuffer, -, rfl⟩ := scrolled.same
  exact ⟨rfl, rfl, rfl, rfl, rfl, rfl, rfl⟩

/-- The line that a scroll brings to the screen. -/
theorem Scrolled.yPos_eq (scrolled : logger.Scrolled after) :
    after.yPos = logger.verRes - logger.fontSize := by
  obtain ⟨framebuffer, -, rfl⟩ := scrolled.same
  rfl

/-- The background depends on the format only. -/
theorem background_congr (format : after.format = logger.format) :
    after.background = logger.background := by
  unfold background
  rw [format]

/-- Scrolling is moving the window. -/
theorem Shows.scroll (shows : logger.Shows page) (screen : logger.Screen)
    (low : logger.yPos ≤ logger.verRes) (deep : logger.verRes < logger.yPos + logger.fontSize)
    (scrolled : logger.Scrolled after) : after.Shows (page.follow logger.paper) := by
  have row := shows.row
  have tall := screen.tall
  have top : (page.follow logger.paper).top =
      page.top + (logger.yPos + logger.fontSize - logger.verRes) := by
    show max page.top (page.row + logger.fontSize - logger.verRes) = _
    omega
  obtain ⟨horRes, verRes, fontSize, stride, xPos, -, format⟩ := scrolled.fields
  have yPos := scrolled.yPos_eq
  have background := background_congr format
  constructor
  · exact xPos.trans shows.column
  · rw [top, yPos]
    show _ = page.row
    omega
  · intro x inside y below
    rw [horRes] at inside
    rw [verRes] at below
    have column := Nat.lt_of_lt_of_le inside screen.padded
    by_cases moved : y < logger.verRes - logger.fontSize
    · rw [pixel_eq_scanline (stride ▸ column), scrolled.moved y moved, ← pixel_eq_scanline column,
        shows.pixels x inside _ (by omega), top]
      show page.ink x _ = page.ink x _
      congr 1
      omega
    · have blank : after.pixel x y = after.background := by
        apply pixel_eq_background
        intro k small
        have room := pixel_inside screen.padded inside below
        have rows : (logger.verRes - logger.fontSize) * logger.stride ≤ y * logger.stride :=
          Nat.mul_le_mul_right _ (Nat.le_of_not_lt moved)
        rw [stride, scrolled.blank]
        · unfold backgroundByte
          rw [background]
        · rw [Nat.mul_assoc, Nat.mul_comm logger.stride]
          omega
        · rw [screen.length]
          omega
      rw [blank, background]
      exact (shows.fresh deep x inside _ (by omega)).symm
  · intro x inside y below
    rw [horRes] at inside
    rw [fontSize] at below
    rw [background]
    exact shows.clear x inside y below
  · intro late
    omega

/-- A line on the screen is in view. -/
theorem Shows.follow (shows : logger.Shows page) (settled : logger.Settled) :
    logger.Shows (page.follow logger.paper) := by
  have row := shows.row
  have top : max page.top (page.row + logger.fontSize - logger.verRes) = page.top := by
    unfold Settled at settled
    omega
  have same : page.follow logger.paper = page := congrArg (fun top => { page with top := top }) top
  rw [same]
  exact shows

/-- A scroll that returned began at most right below the screen. -/
theorem low_of_scroll (ran : logger.scroll = .ok after) : logger.yPos ≤ logger.verRes := by
  obtain ⟨below, isBelow, -⟩ := exists_of_bind_ok ran
  unfold checkedSub at isBelow
  split at isBelow
  · assumption
  · cases isBelow

/-- Where a glyph has been given room, its line is in view. -/
theorem Shows.makeRoom {placed : Logger} {glyph : BitmapChar} (shows : logger.Shows page)
    (screen : logger.Screen) (ran : logger.makeRoom glyph = .ok placed)
    (isPlaced : logger.Placed glyph placed) :
    placed.Shows ((page.turn logger.paper glyph).follow logger.paper) := by
  have wrapped := shows.wrap glyph
  have same := logger.geometry_wrap glyph
  obtain ⟨horRes, verRes, -, -, fontSize, -⟩ := geometry_eq_iff.mp same
  have paper : (logger.wrap glyph).paper = logger.paper := by
    unfold Logger.paper
    rw [horRes, verRes, fontSize]
  rw [← paper]
  rw [← paper] at wrapped
  by_cases deep : logger.verRes - logger.fontSize < (logger.wrap glyph).yPos
  · have scrolls : (logger.wrap glyph).scroll = .ok placed := by
      obtain ⟨limit, isLimit, ran⟩ := exists_of_bind_ok ran
      rw [verRes, fontSize, checkedSub, if_pos screen.tall] at isLimit
      obtain rfl := Except.ok.inj isLimit
      rwa [if_pos deep] at ran
    apply wrapped.scroll (screen.congr same) (low_of_scroll scrolls) _ (isPlaced.scrolled deep)
    omega
  · rw [isPlaced.stays (by omega)]
    apply wrapped.follow
    have tall := screen.tall
    unfold Settled
    omega

/-- A glyph is drawn on the screen and printed on the page. -/
theorem Shows.print {glyph : BitmapChar} (shows : logger.Shows page) (screen : logger.Screen)
    (inked : logger.Inked page) (fitting : logger.Fitting glyph) (inside : logger.Inside glyph) :
    ∃ after, logger.writeRenderedChar glyph = .ok after ∧ after.Shows (page.print glyph) ∧
      after.palette = logger.palette ∧ after.format = logger.format := by
  obtain ⟨drawn, ran, drew⟩ := screen.drew_glyph inked.bright inked.colours fitting inside
  obtain ⟨framebuffer, length, rfl⟩ := drew.redrawn
  refine ⟨_, ran, ?_, rfl, rfl⟩
  have row := shows.row
  have rows := inside.rows
  have height := fitting.height
  constructor
  · exact congrArg (· + glyph.width) shows.column
  · exact row
  · intro x column y below
    refine (drew.pixels x column y).trans ?_
    show _ = ((Page.mark glyph page.column page.row x (y + page.top)).map page.pen).getD _
    rw [shows.pixels x column y below, shows.column, ← row, Page.mark_add]
    rfl
  · intro x column y low
    change page.row + logger.fontSize ≤ y at low
    show ((Page.mark glyph page.column page.row x y).map page.pen).getD _ = _
    rw [Page.mark_below (by omega)]
    exact shows.clear x column y low
  · intro late
    change logger.verRes < logger.yPos + logger.fontSize at late
    omega

/-- What making room leaves alone. -/
theorem Placed.kept {placed : Logger} {glyph : BitmapChar} (isPlaced : logger.Placed glyph placed) :
    placed.geometry = logger.geometry ∧ placed.palette = logger.palette ∧
      placed.format = logger.format := by
  have wrapped : (logger.wrap glyph).geometry = logger.geometry ∧
      (logger.wrap glyph).palette = logger.palette ∧
      (logger.wrap glyph).format = logger.format := by
    unfold Logger.wrap
    split <;> exact ⟨rfl, rfl, rfl⟩
  by_cases deep : logger.verRes - logger.fontSize < (logger.wrap glyph).yPos
  · obtain ⟨framebuffer, length, rfl⟩ := (isPlaced.scrolled deep).same
    refine ⟨?_, wrapped.2⟩
    rw [← wrapped.1, geometry_eq_iff]
    exact ⟨rfl, rfl, rfl, rfl, rfl, length⟩
  · rw [isPlaced.stays (Nat.le_of_not_lt deep)]
    exact wrapped

/-- A character is written on the screen and on the page. -/
theorem Shows.writeChar {font : Font} {c : Char} (shows : logger.Shows page)
    (screen : logger.Screen) (inked : logger.Inked page) (safe : logger.SafeAt font (.char c))
    (printable : c ≠ '\n' → c ≠ '\r' → logger.Printable font c)
    (ran : logger.writeChar font c = .ok after) :
    after.Shows (page.write logger.paper font c) ∧
      after.Inked (page.write logger.paper font c) ∧ after.format = logger.format := by
  unfold Logger.writeChar at ran
  unfold Page.write
  by_cases isNewline : c = '\n'
  · rw [if_pos isNewline] at ran ⊢
    obtain rfl := Except.ok.inj ran
    exact ⟨shows.newline, inked.congr rfl rfl rfl, rfl⟩
  by_cases isReturn : c = '\r'
  · rw [if_neg isNewline, if_pos isReturn] at ran ⊢
    obtain rfl := Except.ok.inj ran
    exact ⟨shows.carriageReturn, inked.congr rfl rfl rfl, rfl⟩
  rw [if_neg isNewline, if_neg isReturn] at ran ⊢
  obtain ⟨glyph, isGlyph, fitting⟩ := printable isNewline isReturn
  obtain ⟨placed, ranRoom, isPlaced⟩ := safe.drawn c glyph rfl isNewline isReturn isGlyph
  rw [isGlyph] at ran ⊢
  obtain ⟨same, palette, format⟩ := isPlaced.kept
  obtain ⟨horRes, -, -, -, fontSize, -⟩ := geometry_eq_iff.mp same
  have placedFitting : placed.Fitting glyph :=
    ⟨fitting.height.trans fontSize.symm, fitting.rows, horRes.symm ▸ fitting.narrow⟩
  have placedInked : placed.Inked ((page.turn logger.paper glyph).follow logger.paper) := by
    apply inked.congr palette format
    unfold Page.turn
    split <;> rfl
  obtain ⟨last, ranLast, showsLast, paletteLast, formatLast⟩ :=
    (shows.makeRoom screen ranRoom isPlaced).print (screen.congr same) placedInked placedFitting
      isPlaced.inside
  simp only [ranRoom, bind, Except.bind, ranLast] at ran
  obtain rfl := Except.ok.inj ran
  exact ⟨showsLast, placedInked.congr paletteLast formatLast rfl, formatLast.trans format⟩

variable {font : Font}

/-- Every step of the console that is safe is one of the page. -/
theorem Shows.apply {event : ConsoleEvent} (shows : logger.Shows page) (screen : logger.Screen)
    (inked : (∃ level, event = .palette level) ∨ logger.Inked page)
    (safe : logger.SafeAt font event)
    (printable : ∀ c, event = .char c → c ≠ '\n' → c ≠ '\r' → logger.Printable font c)
    (ran : logger.apply font event = .ok after) :
    after.Shows (page.apply logger.paper logger.format font event) ∧
      after.Inked (page.apply logger.paper logger.format font event) ∧
      after.format = logger.format := by
  cases event with
  | palette level =>
    obtain rfl := Except.ok.inj ran
    have colours := logger.getColor_setPalette level
    exact ⟨⟨shows.column, shows.row, shows.pixels, shows.clear, shows.fresh⟩,
      ⟨logger.bright_setPalette level, colours⟩, rfl⟩
  | char c =>
    have inked := inked.resolve_left fun ⟨_, isPalette⟩ => nomatch isPalette
    exact shows.writeChar screen inked safe (printable c rfl) ran

/-- Every safe run of the console is one of the page. -/
theorem Shows.run {final : Logger → Prop} {done rest : List ConsoleEvent}
    (shows : logger.Shows page) (screen : logger.Screen)
    (inked : (∀ event ∈ done.head?, ∃ level, event = .palette level) ∨ logger.Inked page)
    (safe : AllSafe font final logger (done ++ rest))
    (printable : ∀ c, .char c ∈ done → c ≠ '\n' → c ≠ '\r' → logger.Printable font c) :
    ∃ reached, logger.run font done = .ok reached ∧
      reached.Shows (page.run logger.paper logger.format font done) := by
  induction done generalizing logger page with
  | nil => exact ⟨logger, rfl, shows⟩
  | cons event done ih =>
    obtain ⟨safeFirst, safeRest⟩ := safe
    obtain ⟨after, ran, -⟩ := safeFirst.returns
    have same := geometry_apply ran
    obtain ⟨horRes, verRes, -, -, fontSize, -⟩ := geometry_eq_iff.mp same
    have paper : after.paper = logger.paper := by
      unfold Logger.paper
      rw [horRes, verRes, fontSize]
    obtain ⟨showsAfter, inkedAfter, format⟩ := shows.apply screen
      (inked.imp_left fun first => first event rfl) safeFirst
      (fun c isChar => printable c (isChar ▸ List.mem_cons_self)) ran
    obtain ⟨reached, ranRest, showsReached⟩ := ih showsAfter (screen.congr same) (.inr inkedAfter)
      (safeRest after ran)
      fun c isIn notNewline notReturn =>
        (printable c (List.mem_cons_of_mem _ isIn) notNewline notReturn).congr same
    refine ⟨reached, ?_, ?_⟩
    · rw [Logger.run, List.foldlM_cons, ran]
      exact ranRest
    · rw [paper, format] at showsReached
      exact showsReached

/-- A new logger shows an empty page. -/
theorem shows_new {info : GraphicInfo} {memory : List UInt8}
    (ran : Logger.new info memory = .ok logger) (screen : logger.Screen) :
    logger.Shows (Page.blank logger.background) := by
  unfold Logger.new at ran
  split at ran
  · cases ran
  · obtain rfl := Except.ok.inj ran
    refine ⟨rfl, rfl, ?_, fun _ _ _ _ => rfl, fun _ _ _ _ _ => rfl⟩
    intro x column y below
    apply pixel_eq_background
    intro k small
    have room := pixel_inside screen.padded column below
    have length : memory.length = _ := List.length_mapIdx.symm.trans screen.length
    apply blankFrom_of_le _ (Nat.zero_le _)
    exact Nat.lt_of_lt_of_le (Nat.add_lt_add_left small _) (room.trans length.ge)

/-- The steps of records begin with a palette. -/
theorem head_events {records : List LogRecord} {done rest : List ConsoleEvent}
    (shape : records.flatMap LogRecord.events = done ++ rest) :
    ∀ event ∈ done.head?, ∃ level, event = .palette level := by
  intro event isFirst
  cases done with
  | nil => cases isFirst
  | cons first done =>
    obtain rfl := Option.some.inj isFirst
    cases records with
    | nil => cases shape
    | cons record records => exact ⟨record.level, (List.cons.inj shape).1.symm⟩

/-- The font covers the steps of the records that it covers. -/
theorem printable_events {records : List LogRecord}
    (covered : ∀ record ∈ records, record.Covered font logger) {c : Char}
    (isIn : .char c ∈ records.flatMap LogRecord.events) (notNewline : c ≠ '\n')
    (notReturn : c ≠ '\r') : logger.Printable font c := by
  obtain ⟨record, recordIn, isEvent⟩ := List.mem_flatMap.mp isIn
  rcases List.mem_cons.mp isEvent with isPalette | isChar
  · cases isPalette
  · obtain ⟨other, otherIn, same⟩ := List.mem_map.mp isChar
    obtain rfl := ConsoleEvent.char.inj same
    exact (covered record recordIn).2 other otherIn notNewline notReturn

/-- At every step of every run of a new console, as long as the font covers the records, the screen
is what a window shows of an endless page on which the same characters are printed. The window goes
down with the last glyph and nowhere else. -/
theorem console_shows_page {info : GraphicInfo} {memory : List UInt8}
    (isNew : Logger.new info memory = .ok logger) (screen : logger.Screen)
    (room : logger.fontSize < logger.verRes) {records : List LogRecord}
    (covered : ∀ record ∈ records, record.Covered font logger) {done rest : List ConsoleEvent}
    (shape : records.flatMap LogRecord.events = done ++ rest) :
    ∃ reached page, logger.run font done = .ok reached ∧
      page = (Page.blank logger.background).run logger.paper logger.format font done ∧
      reached.xPos = page.column ∧ reached.yPos + page.top = page.row ∧
      ∀ x < logger.horRes, ∀ y < logger.verRes, reached.pixel x y = page.ink x (y + page.top) := by
  have blank := shows_new isNew screen
  have top : logger.yPos + 0 = 0 := blank.row
  have ready : logger.Ready := .inr ⟨by omega, blank.column⟩
  have safe := screen.allSafe_records room ready covered
  rw [shape] at safe
  have printable : ∀ c, .char c ∈ done → c ≠ '\n' → c ≠ '\r' → logger.Printable font c :=
    fun c isIn => printable_events covered (shape ▸ List.mem_append_left rest isIn)
  obtain ⟨reached, ran, shows⟩ := blank.run screen (.inl (head_events shape)) safe
    printable
  obtain ⟨horRes, verRes, -⟩ := geometry_eq_iff.mp (geometry_run ran)
  refine ⟨reached, _, ran, rfl, shows.column, shows.row, ?_⟩
  rw [← horRes, ← verRes]
  exact shows.pixels

/-- A record of a long line and a short one. -/
def longRecord : LogRecord := ⟨.info, List.replicate 60 'x' ++ ['\n', 'y'], [], 0⟩

/-- A record of an empty message at the level of errors. -/
def errorRecord : LogRecord := ⟨.error, [], [], 0⟩

/-- A screen of fifty rows after a long record and the first glyph of a record of another level. The
first line is wrapped and the second record begins on the fourth line; the screen shows the lower
half of the second line, the whole third line, and the glyph. -/
theorem console_shows_page_scrolled : ∃ logger reached,
    Logger.new (plainInfo 50) (List.replicate (4 * 640 * 50) 0) = .ok logger ∧
    logger.run blockFont (longRecord.events ++ [.palette .error, .char '[']) = .ok reached ∧
    reached.xPos = 8 ∧ reached.yPos = 30 ∧
    reached.pixel 63 9 = [233, 173, 115, 0] ∧ reached.pixel 64 9 = [52, 44, 40, 0] ∧
    reached.pixel 223 10 = [233, 173, 115, 0] ∧ reached.pixel 224 10 = [52, 44, 40, 0] ∧
    reached.pixel 7 30 = [119, 114, 210, 0] ∧ reached.pixel 8 30 = [52, 44, 40, 0] := by
  obtain ⟨logger, isNew, screen, -, -, size, ver, printable⟩ :=
    plain_screen (show 20 ≤ 50 by decide)
  have covered : ∀ record ∈ [longRecord, errorRecord], record.Covered blockFont logger := by
    intro record isIn
    refine ⟨?_, fun c _ _ _ => printable c⟩
    rcases List.mem_pair.mp isIn with rfl | rfl <;> exact List.not_mem_nil
  have shape : [longRecord, errorRecord].flatMap LogRecord.events =
      (longRecord.events ++ [.palette .error, .char '[']) ++ errorRecord.events.drop 2 := by
    decide +kernel
  obtain ⟨reached, page, ran, isPage, column, row, pixels⟩ :=
    console_shows_page isNew screen (by omega) covered shape
  have isLogger := isNew
  rw [Logger.new, if_neg (by decide)] at isLogger
  obtain rfl := Except.ok.inj isLogger
  have onPage : page.column = 8 ∧ page.row = 60 ∧ page.top = 30 ∧
      page.ink 63 39 = [233, 173, 115, 0] ∧ page.ink 64 39 = [52, 44, 40, 0] ∧
      page.ink 223 40 = [233, 173, 115, 0] ∧ page.ink 224 40 = [52, 44, 40, 0] ∧
      page.ink 7 60 = [119, 114, 210, 0] ∧ page.ink 8 60 = [52, 44, 40, 0] := by
    rw [isPage]
    decide +kernel
  obtain ⟨isColumn, isRow, isTop, inks⟩ := onPage
  rw [isTop] at row pixels
  refine ⟨_, reached, isNew, ran, column.trans isColumn, by omega, ?_⟩
  have shown : ∀ x < 640, ∀ y < 50, reached.pixel x y = page.ink x (y + 30) := pixels
  rw [shown 63 (by decide) 9 (by decide), shown 64 (by decide) 9 (by decide),
    shown 223 (by decide) 10 (by decide), shown 224 (by decide) 10 (by decide),
    shown 7 (by decide) 30 (by decide), shown 8 (by decide) 30 (by decide)]
  exact inks

end Logger

end Canyon.Kernel
