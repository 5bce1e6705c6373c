import Chip8.Window.Step

/-!
# What the window shows

Main statement: `rendered_pixels`, in every frame and whatever was drawn before, the surface of the window is
the screen, each cell enlarged to a square block of pixels, for every graphics library that does what its
documentation says.
-/

namespace Chip8

namespace Graphics

/-- What the drawing relies on: the first index of the array of a surface is the column, scaling to a multiple
of the size repeats the pixels, and a source that is drawn into a target covers it. -/
structure Documented (g : Graphics) : Prop where
  size_openSurface {width height : Nat} (wide : 0 < width) (high : 0 < height) :
    (g.openSurface width height).width = width ∧ (g.openSurface width height).height = height
  getElem_reshape {rows columns i j : Nat} (flat : Vector UInt8 (rows * columns)) (row : i < rows)
    (column : j < columns) : some (g.reshape rows columns flat)[i][j] = flat[i * columns + j]?
  getElem_transpose {rows columns i j : Nat} (array : Vector (Vector UInt8 columns) rows) (row : i < rows)
    (column : j < columns) : (g.transpose array)[j][i] = array[i][j]
  getElem_choose {rows columns i j : Nat} (condition : Vector (Vector Bool columns) rows) (yes no : Colour)
    (row : i < rows) (column : j < columns) :
    (g.choose condition yes no)[i][j] = if condition[i][j] then yes else no
  width_surfaceOf {width height : Nat} (array : Vector (Vector Colour height) width) :
    (g.surfaceOf array).width = width
  height_surfaceOf {width height : Nat} (array : Vector (Vector Colour height) width) :
    (g.surfaceOf array).height = height
  pixel?_surfaceOf {width height x y : Nat} (array : Vector (Vector Colour height) width) (column : x < width)
    (row : y < height) : (g.surfaceOf array).pixel? x y = some array[x][y]
  width_scale (source : Picture) (width height : Nat) : (g.scale source width height).width = width
  height_scale (source : Picture) (width height : Nat) : (g.scale source width height).height = height
  pixel?_scale {factor x y : Nat} (source : Picture) (inRow : x < source.width * factor)
    (inColumn : y < source.height * factor) :
    (g.scale source (source.width * factor) (source.height * factor)).pixel? x y =
      source.pixel? (x / factor) (y / factor)
  width_blit (target source : Picture) (x y : Nat) : (g.blit target source x y).width = target.width
  height_blit (target source : Picture) (x y : Nat) : (g.blit target source x y).height = target.height
  pixel?_blit {i j : Nat} (target source : Picture) (x y : Nat)
    (inSource : i < source.width ∧ j < source.height)
    (inTarget : x + i < target.width ∧ y + j < target.height) :
    (g.blit target source x y).pixel? (x + i) (y + j) = source.pixel? i j

theorem documented_nearest : nearest.Documented where
  size_openSurface wide high := ⟨rfl, rfl⟩
  getElem_reshape flat row column := by
    have inside := offset_lt row column
    simp [nearest, inside]
  getElem_transpose array row column := by simp [nearest]
  getElem_choose condition yes no row column := by simp [nearest]
  width_surfaceOf array := rfl
  height_surfaceOf array := rfl
  pixel?_surfaceOf array column row := by
    simp only [nearest, Picture.pixel?_mk _ column row, Vector.getElem_ofFn, Fin.getElem_fin]
  width_scale source width height := rfl
  height_scale source width height := rfl
  pixel?_scale {factor x y} source inRow inColumn := by
    have wide : 0 < source.width := Nat.pos_of_mul_pos_right (Nat.zero_lt_of_lt inRow)
    have high : 0 < source.height := Nat.pos_of_mul_pos_right (Nat.zero_lt_of_lt inColumn)
    obtain ⟨colour, here⟩ : ∃ colour, source.pixel? (x / factor) (y / factor) = some colour :=
      Picture.exists_pixel? (Nat.div_lt_of_lt_mul (Nat.mul_comm _ factor ▸ inRow))
        (Nat.div_lt_of_lt_mul (Nat.mul_comm _ factor ▸ inColumn))
    simp only [nearest, Picture.pixel?_ofFn, inRow, inColumn, and_self, if_true]
    rw [Nat.mul_comm x, Nat.mul_div_mul_left _ _ wide, Nat.mul_comm y, Nat.mul_div_mul_left _ _ high, here]
    rfl
  width_blit target source x y := rfl
  height_blit target source x y := rfl
  pixel?_blit target source x y inSource inTarget := by
    obtain ⟨colour, here⟩ := Picture.exists_pixel? inSource.1 inSource.2
    simp [nearest, Picture.pixel?_ofFn, inTarget, here]

variable {g : Graphics} {surface : Picture} {factor : Nat}

theorem width_drawScreen (documented : g.Documented) (s : Screen) :
    (g.drawScreen s surface).width = surface.width :=
  documented.width_blit surface _ 0 0

theorem height_drawScreen (documented : g.Documented) (s : Screen) :
    (g.drawScreen s surface).height = surface.height :=
  documented.height_blit surface _ 0 0

theorem getElem_columns (documented : g.Documented) (s : Screen) {x y : Nat} (column : x < screenWidth)
    (row : y < screenHeight) :
    (g.columns s)[x][y] = if s.lit (y * 64 + x) then .foreground else .background := by
  have byte : (g.transpose (g.reshape screenHeight screenWidth s.bytes))[x][y] =
      if s.lit (y * 64 + x) then 1 else 0 := by
    rw [documented.getElem_transpose _ row column]
    refine Option.some.inj ((documented.getElem_reshape _ row column).trans ?_)
    exact s.getElem?_bytes (offset_lt row column)
  rw [columns, documented.getElem_choose _ _ _ column row]
  simp only [Vector.getElem_map, byte]
  cases s.lit (y * 64 + x) <;> rfl

theorem pixel?_drawScreen (documented : g.Documented) (s : Screen) (width : surface.width = 64 * factor)
    (height : surface.height = 32 * factor) {x y : Nat} (inRow : x < 64 * factor)
    (inColumn : y < 32 * factor) :
    (g.drawScreen s surface).pixel? x y =
      some (if s.lit (y / factor * 64 + x / factor) then .foreground else .background) := by
  have column : x / factor < screenWidth := Nat.div_lt_of_lt_mul (Nat.mul_comm 64 factor ▸ inRow)
  have row : y / factor < screenHeight := Nat.div_lt_of_lt_mul (Nat.mul_comm 32 factor ▸ inColumn)
  let source := g.surfaceOf (g.columns s)
  have sourceWidth : source.width = 64 := documented.width_surfaceOf _
  have sourceHeight : source.height = 32 := documented.height_surfaceOf _
  have cell : source.pixel? (x / factor) (y / factor) =
      some (if s.lit (y / factor * 64 + x / factor) then .foreground else .background) := by
    rw [documented.pixel?_surfaceOf _ column row, getElem_columns documented s column row]
  have scaled : (g.scale source surface.width surface.height).pixel? x y =
      source.pixel? (x / factor) (y / factor) := by
    rw [width, height, ← sourceWidth, ← sourceHeight]
    exact documented.pixel?_scale source (sourceWidth ▸ inRow) (sourceHeight ▸ inColumn)
  have inside : x < surface.width ∧ y < surface.height := ⟨width ▸ inRow, height ▸ inColumn⟩
  have blitted := documented.pixel?_blit surface (g.scale source surface.width surface.height) 0 0
    (i := x) (j := y)
  simp only [Nat.zero_add, documented.width_scale, documented.height_scale] at blitted
  calc (g.drawScreen s surface).pixel? x y
      = (g.scale source surface.width surface.height).pixel? x y := blitted inside inside
    _ = source.pixel? (x / factor) (y / factor) := scaled
    _ = some (if s.lit (y / factor * 64 + x / factor) then .foreground else .background) := cell

end Graphics

namespace Window

theorem scale_handle (w : Window) (input : Input) : (w.handle input).scale = w.scale := by
  cases input with
  | keyDown key =>
      simp only [handle]
      split
      · rw [obey_eq]
      · split <;> rfl
  | _ => rfl

theorem scale_run (w : Window) (steps : List Step) : (w.run steps).scale = w.scale := by
  induction steps generalizing w with
  | nil => rfl
  | cons step rest ih =>
      refine (ih (w.step step)).trans ?_
      cases step with
      | input i => exact scale_handle w i
      | forward => rw [Window.step, forwardKey_eq]
      | _ => rfl

/-- The surface has the size of the window. -/
def FitsSurface (w : Window) (surface : Picture) : Prop :=
  surface.width = 64 * w.scale ∧ surface.height = 32 * w.scale

theorem FitsSurface.render {g : Graphics} (documented : g.Documented) {w : Window} {surface : Picture}
    (fits : w.FitsSurface surface) : w.FitsSurface (w.render g surface) :=
  ⟨(Graphics.width_drawScreen documented _).trans fits.1,
    (Graphics.height_drawScreen documented _).trans fits.2⟩

theorem FitsSurface.display {g : Graphics} (documented : g.Documented) {w : Window} {surface : Picture}
    (fits : w.FitsSurface surface) (frames : List (List Step)) :
    (w.display g surface frames).1.scale = w.scale ∧
      (w.display g surface frames).1.FitsSurface (w.display g surface frames).2 := by
  induction frames generalizing w surface with
  | nil => exact ⟨rfl, fits⟩
  | cons steps rest ih =>
      have same := scale_run w steps
      have fits : (w.run steps).FitsSurface surface := by
        rw [FitsSurface, same]
        exact fits
      obtain ⟨scale, later⟩ := ih (fits.render documented)
      exact ⟨scale.trans same, later⟩

/-- Whatever has happened and been drawn before, the next picture of a window has the size of the scale asked
for, and its pixels are those of the cells of the screen. -/
theorem rendered_pixels (g : Graphics) (documented : g.Documented) (session : Session) (scale : Int)
    (title : String) (frames : List (List Step)) :
    let opened := create session scale title
    let shown := opened.display g (opened.openSurface g) frames
    let picture := shown.1.render g shown.2
    let factor := (max 1 scale).toNat
    picture.width = 64 * factor ∧ picture.height = 32 * factor ∧
      ∀ x y, x < 64 * factor → y < 32 * factor →
        picture.pixel? x y =
          some (if shown.1.session.machine.screen.lit (y / factor * 64 + x / factor) then .foreground
            else .background) := by
  intro opened shown picture factor
  have positive : 0 < factor := by omega
  have fits : opened.FitsSurface (opened.openSurface g) :=
    documented.size_openSurface (Nat.mul_pos (by decide) positive) (Nat.mul_pos (by decide) positive)
  obtain ⟨same, later⟩ := fits.display documented frames
  have scale : shown.1.scale = factor := same
  have drawn := later.render documented
  rw [FitsSurface, scale] at drawn later
  refine ⟨drawn.1, drawn.2, fun x y inRow inColumn => ?_⟩
  exact Graphics.pixel?_drawScreen documented _ later.1 later.2 inRow inColumn

/-- The digit at the start of the memory, drawn after a frame with an empty screen. -/
theorem rendered_digit :
    let program : Program := ⟨[0xD0, 0x05], by decide, by decide⟩
    let session := (Session.create program .default 700 60 .silent).run [.start false]
    let opened := create session 3 ""
    let shown := opened.display .nearest (opened.openSurface .nearest)
      [[.forward, .notifications], [.session .turn, .session .turn]]
    let picture := shown.1.render .nearest shown.2
    picture.width = 192 ∧ picture.height = 96 ∧ picture.pixel? 11 2 = some .foreground ∧
      picture.pixel? 12 2 = some .background ∧ picture.pixel? 3 3 = some .background ∧
      picture.pixel? 9 14 = some .foreground := by
  intro program session opened shown picture
  obtain ⟨width, height, pixels⟩ := rendered_pixels .nearest Graphics.documented_nearest session 3 ""
    [[.forward, .notifications], [.session .turn, .session .turn]]
  have lit : shown.1.session.machine.screen.lit 3 = true ∧ shown.1.session.machine.screen.lit 4 = false ∧
      shown.1.session.machine.screen.lit 65 = false ∧
      shown.1.session.machine.screen.lit 259 = true := by decide +kernel
  obtain ⟨right, outside, inside, below⟩ := lit
  refine ⟨width, height, ?_, ?_, ?_, ?_⟩
  · exact (pixels 11 2 (by decide) (by decide)).trans (congrArg some (if_pos right))
  · exact (pixels 12 2 (by decide) (by decide)).trans (congrArg some (if_neg (Bool.eq_false_iff.1 outside)))
  · exact (pixels 3 3 (by decide) (by decide)).trans (congrArg some (if_neg (Bool.eq_false_iff.1 inside)))
  · exact (pixels 9 14 (by decide) (by decide)).trans (congrArg some (if_pos below))

end Window

end Chip8
