import ComputeKernel.Support.Finishes
import ComputeKernel.Support.Raster

/-! The framebuffer driver (`kernel/src/drivers/framebuffer.rs`): pixels, and the filled
rectangle. A pixel is a cell of the buffer, and the loops of `fill_rect` paint a set of
cells that grows by one pixel at a time. -/
namespace ComputeKernel
open Checked (Exec Finishes Overflow)
open Raster (Painted)

/-- `unknown` stands for the formats that the driver ignores. -/
inductive PixelFormat where
  | rgb
  | bgr
  | u8
  | unknown
  deriving DecidableEq, Repr

structure FrameBufferInfo where
  width : Nat
  height : Nat
  stride : Nat
  bytesPerPixel : Nat
  pixelFormat : PixelFormat
  deriving DecidableEq, Repr

structure FramebufferDriver where
  buffer : List UInt8
  info : FrameBufferInfo
  deriving DecidableEq, Repr

/-- `((r as u16 + g as u16 + b as u16) / 3) as u8`; the sum of three bytes fits. -/
def grey (r g b : UInt8) : UInt8 := ((r.toUInt16 + g.toUInt16 + b.toUInt16) / 3).toUInt8

namespace FramebufferDriver

/-- `self.buffer[i] = byte`. -/
def store (i : Nat) (byte : UInt8) : Exec FramebufferDriver Unit := do
  let d ← Exec.get
  if i < d.buffer.length then Exec.modify (fun d => { d with buffer := d.buffer.set i byte })
  else Exec.panic .bounds

/-- The three assignments of a pixel in colour. -/
def storeThree (overflow : Overflow) (base : Nat) (first second third : UInt8) :
    Exec FramebufferDriver Unit := do
  store base first
  let next ← Exec.usize overflow (base + 1)
  store next second
  let last ← Exec.usize overflow (base + 2)
  store last third

def putPixel (overflow : Overflow) (x y : Nat) (r g b : UInt8) : Exec FramebufferDriver Unit := do
  let d ← Exec.get
  let above ← Exec.usize overflow (y * d.info.stride)
  let offset ← Exec.usize overflow (above + x)
  let bpp := d.info.bytesPerPixel
  let base ← Exec.usize overflow (offset * bpp)
  let stop ← Exec.usize overflow (base + bpp)
  if stop > d.buffer.length then Exec.ret ()
  else
    match d.info.pixelFormat with
    | .rgb => storeThree overflow base r g b
    | .bgr => storeThree overflow base b g r
    | .u8 => store base (grey r g b)
    | .unknown => Exec.ret ()

/-- `for i in first..stop`. -/
def forRange (first stop : Nat) (body : Nat → Exec FramebufferDriver Unit) :
    Exec FramebufferDriver Unit := Exec.forEach (List.range' first (stop - first)) body

def fillRect (overflow : Overflow) (x y w h : UInt64) (r g b : UInt8) :
    Exec FramebufferDriver Unit := do
  let d ← Exec.get
  let bottom ← Exec.usize overflow (y.toNat + h.toNat)
  forRange y.toNat (min bottom d.info.height) (fun row => do
    let right ← Exec.usize overflow (x.toNat + w.toNat)
    forRange x.toNat (min right d.info.width) (fun col => putPixel overflow col row r g b))

end FramebufferDriver

/-- The colour bytes of a pixel. -/
def PixelFormat.encode : PixelFormat → UInt8 → UInt8 → UInt8 → List UInt8
  | .rgb, r, g, b => [r, g, b]
  | .bgr, r, g, b => [b, g, r]
  | .u8, r, g, b => [grey r g b]
  | .unknown, _, _, _ => []

namespace FrameBufferInfo

/-- Three or four bytes for a pixel in colour and one for a grey pixel. -/
def Supported (info : FrameBufferInfo) : Prop :=
  match info.pixelFormat with
  | .rgb => info.bytesPerPixel = 3 ∨ info.bytesPerPixel = 4
  | .bgr => info.bytesPerPixel = 3 ∨ info.bytesPerPixel = 4
  | .u8 => info.bytesPerPixel = 1
  | .unknown => False

/-- Where the bytes of a pixel start. -/
def base (info : FrameBufferInfo) (col row : Nat) : Nat :=
  (row * info.stride + col) * info.bytesPerPixel

/-- The pixels of a rectangle that are on the screen. -/
def Clipped (info : FrameBufferInfo) (x y w h : UInt64) (col row : Nat) : Prop :=
  x.toNat ≤ col ∧ col < x.toNat + w.toNat ∧ y.toNat ≤ row ∧ row < y.toNat + h.toNat ∧
    col < info.width ∧ row < info.height

variable {info : FrameBufferInfo}

/-- A pixel has a colour byte, and room for all of them. -/
theorem Supported.encode_length (supported : info.Supported) (r g b : UInt8) :
    0 < (info.pixelFormat.encode r g b).length ∧
      (info.pixelFormat.encode r g b).length ≤ info.bytesPerPixel := by
  unfold Supported at supported
  cases format : info.pixelFormat with
  | rgb | bgr | u8 =>
      simp only [format] at supported
      simp only [PixelFormat.encode, List.length_cons, List.length_nil]
      omega
  | unknown => simp only [format] at supported

end FrameBufferInfo

namespace FramebufferDriver

/-- A buffer that has room for the whole screen. -/
structure Fits (d : FramebufferDriver) : Prop where
  stride : d.info.width ≤ d.info.stride
  supported : d.info.Supported
  size : d.info.stride * d.info.height * d.info.bytesPerPixel ≤ d.buffer.length
  slice : d.buffer.length < 2 ^ 63

variable {overflow : Overflow} {d d₀ d' : FramebufferDriver} {x y w h : UInt64} {r g b : UInt8}
  {col row : Nat}

theorem Fits.withBuffer {buffer : List UInt8} (fits : d.Fits)
    (length : buffer.length = d.buffer.length) : Fits { d with buffer } :=
  ⟨fits.stride, fits.supported, length ▸ fits.size, length ▸ fits.slice⟩

theorem store_run {i : Nat} (inside : i < d.buffer.length) (byte : UInt8) :
    store i byte d = .done () { d with buffer := d.buffer.set i byte } := by
  unfold store
  rw [Exec.get_bind, if_pos inside]
  rfl

theorem storeThree_run {base : Nat} (inside : base + 3 ≤ d.buffer.length)
    (small : d.buffer.length < 2 ^ 63) (first second third : UInt8) :
    storeThree overflow base first second third d =
      .done () { d with buffer := Raster.overlay d.buffer base [first, second, third] } := by
  unfold storeThree
  rw [Exec.bind_of_done (store_run (by omega) first),
    Exec.bind_of_done (Exec.usize_of_lt (by omega) overflow _),
    Exec.bind_of_done (store_run (by rw [List.length_set]; omega) second),
    Exec.bind_of_done (Exec.usize_of_lt (by omega) overflow _),
    store_run (by rw [List.length_set, List.length_set]; omega) third]
  rfl

theorem Fits.base_inside (fits : d.Fits) (inWidth : col < d.info.width)
    (inHeight : row < d.info.height) :
    d.info.base col row + d.info.bytesPerPixel ≤ d.buffer.length := by
  have cell := Raster.cell_lt (Nat.lt_of_lt_of_le inWidth fits.stride) inHeight
  calc d.info.base col row + d.info.bytesPerPixel
      = (row * d.info.stride + col + 1) * d.info.bytesPerPixel := by
        rw [FrameBufferInfo.base, Nat.succ_mul]
    _ ≤ d.info.stride * d.info.height * d.info.bytesPerPixel := Nat.mul_le_mul_right _ cell
    _ ≤ d.buffer.length := fits.size

/-- A pixel of the screen is written where it stands, and none of the arithmetic
overflows. -/
theorem putPixel_run (fits : d.Fits) (inWidth : col < d.info.width) (inHeight : row < d.info.height) :
    putPixel overflow col row r g b d =
      .done () { d with
        buffer := Raster.overlay d.buffer (d.info.base col row) (d.info.pixelFormat.encode r g b) } := by
  have inside := fits.base_inside inWidth inHeight
  have slice := fits.slice
  obtain ⟨positive, encoded⟩ := fits.supported.encode_length r g b
  have cells : row * d.info.stride + col ≤ d.info.base col row := Nat.le_mul_of_pos_right _ (by omega)
  unfold FrameBufferInfo.base at inside cells ⊢
  unfold putPixel
  rw [Exec.get_bind, Exec.bind_of_done (Exec.usize_of_lt (by omega) overflow d),
    Exec.bind_of_done (Exec.usize_of_lt (by omega) overflow d),
    Exec.bind_of_done (Exec.usize_of_lt (by omega) overflow d),
    Exec.bind_of_done (Exec.usize_of_lt (by omega) overflow d), if_neg (by omega)]
  cases format : d.info.pixelFormat with
  | rgb =>
      rw [format] at encoded
      exact storeThree_run (Nat.le_trans (Nat.add_le_add_left encoded _) inside) slice r g b
  | bgr =>
      rw [format] at encoded
      exact storeThree_run (Nat.le_trans (Nat.add_le_add_left encoded _) inside) slice b g r
  | u8 => exact store_run (by omega) (grey r g b)
  | unknown => rfl

/-- The pixels of these cells, and no others, have been painted since `d₀`. -/
structure Shows (d₀ : FramebufferDriver) (r g b : UInt8) (cells : Nat → Prop)
    (d : FramebufferDriver) : Prop where
  info : d.info = d₀.info
  painted : Painted d₀.info.bytesPerPixel (d₀.info.pixelFormat.encode r g b) cells d₀.buffer d.buffer

theorem Shows.fits {cells : Nat → Prop} (shown : Shows d₀ r g b cells d) (fits : d₀.Fits) :
    d.Fits := by
  refine ⟨?_, ?_, ?_, ?_⟩
  · rw [shown.info]
    exact fits.stride
  · rw [shown.info]
    exact fits.supported
  · rw [shown.info, shown.painted.length]
    exact fits.size
  · rw [shown.painted.length]
    exact fits.slice

theorem Shows.congr {cells cells' : Nat → Prop} (shown : Shows d₀ r g b cells d)
    (same : ∀ i, cells i ↔ cells' i) : Shows d₀ r g b cells' d :=
  ⟨shown.info, shown.painted.congr same⟩

/-- One pixel more. -/
theorem putPixel_shows {cells : Nat → Prop} (fits : d₀.Fits) (shown : Shows d₀ r g b cells d)
    (inWidth : col < d₀.info.width) (inHeight : row < d₀.info.height) :
    Finishes (putPixel overflow col row r g b)
      (fun _ d' => Shows d₀ r g b (fun i => cells i ∨ i = row * d₀.info.stride + col) d') d := by
  have inside := fits.base_inside inWidth inHeight
  have encoded := (fits.supported.encode_length r g b).2
  have ran : putPixel overflow col row r g b d = _ :=
    putPixel_run (shown.fits fits) (shown.info ▸ inWidth) (shown.info ▸ inHeight)
  refine Finishes.of_done ran ⟨shown.info, ?_⟩
  rw [shown.info]
  exact shown.painted.cell encoded (Nat.le_trans (Nat.add_le_add_left encoded _) inside)

/-- The rule of a loop in which every turn paints a part of the cells. -/
theorem forRange_shows {cells : Nat → Prop} (part : Nat → Nat → Prop) {first stop : Nat}
    {body : Nat → Exec FramebufferDriver Unit} (start : Shows d₀ r g b cells d)
    (each : ∀ i, first ≤ i → i < stop → ∀ cells d, Shows d₀ r g b cells d →
      Finishes (body i) (fun _ d' => Shows d₀ r g b (fun j => cells j ∨ part i j) d') d) :
    Finishes (forRange first stop body)
      (fun _ d' => Shows d₀ r g b (Raster.upTo cells part first stop) d') d := by
  have begun : Shows d₀ r g b (Raster.upTo cells part first first) d :=
    start.congr (fun j => (Raster.upTo_of_le (Nat.le_refl first) j).symm)
  refine Finishes.mono
    (Finishes.forRange (fun t d' => Shows d₀ r g b (Raster.upTo cells part first t) d') begun ?_)
    (fun _ d' shown => ?_)
  · intro i above below d shown
    refine Finishes.mono (each i above (by omega) _ d shown) (fun _ d' grown => ?_)
    exact grown.congr (fun j => (Raster.upTo_succ above j).symm)
  · rcases Nat.le_total first stop with some_ | empty
    · rwa [Nat.add_sub_cancel' some_] at shown
    · refine shown.congr (fun j => ?_)
      rw [Raster.upTo_of_le (by omega), Raster.upTo_of_le empty]

/-- The cells of a row that `fill_rect` paints when `x + w` comes out as `right`. -/
def RowPart (info : FrameBufferInfo) (x : UInt64) (right row : Nat) (i : Nat) : Prop :=
  ∃ col, x.toNat ≤ col ∧ col < min right info.width ∧ i = row * info.stride + col

/-- All the cells that it paints when `y + h` comes out as `bottom`. -/
def Region (info : FrameBufferInfo) (x y : UInt64) (right bottom : Nat) (i : Nat) : Prop :=
  ∃ row, y.toNat ≤ row ∧ row < min bottom info.height ∧ RowPart info x right row i

/-- The sum of `x` and `w` is only formed when there is a row to draw. -/
theorem fillRect_shows {right bottom : Nat} (fits : d.Fits)
    (sumY : Exec.usize overflow (y.toNat + h.toNat) d = .done bottom d)
    (sumX : y.toNat < min bottom d.info.height → ∀ d : FramebufferDriver,
      Exec.usize overflow (x.toNat + w.toNat) d = .done right d) :
    Finishes (fillRect overflow x y w h r g b)
      (fun _ d' => Shows d r g b (Region d.info x y right bottom) d') d := by
  refine Finishes.bind (Finishes.get (Finishes.bind (Finishes.of_done sumY ?_)))
  have blank : Shows d r g b (fun _ => False) d := ⟨rfl, Painted.none (fun _ => not_false)⟩
  refine Finishes.mono (forRange_shows (RowPart d.info x right) blank ?_)
    (fun _ d' shown => shown.congr (fun i => iff_of_eq (false_or _)))
  intro row above below cells d' shown
  refine Finishes.bind (Finishes.of_done (sumX (by omega) d') ?_)
  refine forRange_shows (fun col i => i = row * d.info.stride + col) shown ?_
  intro col above below cells d' shown
  exact putPixel_shows fits shown (by omega) (by omega)

/-- The clipped rectangle has been filled: its pixels have their colour bytes, every other
byte is as before, and so are all the bytes of the other pixels of the screen. -/
structure Filled (x y w h : UInt64) (r g b : UInt8) (d d' : FramebufferDriver) : Prop where
  info : d'.info = d.info
  length : d'.buffer.length = d.buffer.length
  painted : ∀ col row, d.info.Clipped x y w h col row →
    ∀ k, k < (d.info.pixelFormat.encode r g b).length →
      d'.buffer[d.info.base col row + k]? = (d.info.pixelFormat.encode r g b)[k]?
  kept : ∀ a, (∀ col row, d.info.Clipped x y w h col row →
      ∀ k, k < (d.info.pixelFormat.encode r g b).length → a ≠ d.info.base col row + k) →
    d'.buffer[a]? = d.buffer[a]?
  others : ∀ col row, col < d.info.width → row < d.info.height → ¬d.info.Clipped x y w h col row →
    ∀ k, k < d.info.bytesPerPixel →
      d'.buffer[d.info.base col row + k]? = d.buffer[d.info.base col row + k]?

/-- `fill_rect` returns, with the clipped rectangle filled. -/
def FillsExactly (overflow : Overflow) (x y w h : UInt64) (r g b : UInt8) (d : FramebufferDriver) :
    Prop := Finishes (fillRect overflow x y w h r g b) (fun _ d' => Filled x y w h r g b d d') d

/-- No two pixels of the screen share a cell. -/
theorem cell_inj {col' row' : Nat} (fits : d.Fits) (inWidth : col < d.info.width)
    (inWidth' : col' < d.info.width)
    (same : row * d.info.stride + col = row' * d.info.stride + col') : row = row' ∧ col = col' :=
  Raster.place_inj (Nat.lt_of_lt_of_le inWidth fits.stride)
    (Nat.lt_of_lt_of_le inWidth' fits.stride) same

/-- The sums over the natural numbers give the cells of the clipped rectangle. -/
def ClippedCell (info : FrameBufferInfo) (x y w h : UInt64) (i : Nat) : Prop :=
  ∃ col row, info.Clipped x y w h col row ∧ i = row * info.stride + col

theorem Shows.filled (fits : d.Fits) (shown : Shows d r g b (ClippedCell d.info x y w h) d') :
    Filled x y w h r g b d d' := by
  refine ⟨shown.info, shown.painted.length, ?_, ?_, ?_⟩
  · intro col row clipped k within
    exact shown.painted.painted _ ⟨col, row, clipped, rfl⟩ k within
  · intro a other
    refine shown.painted.kept a ?_
    rintro _ ⟨col, row, clipped, rfl⟩ k within
    exact other col row clipped k within
  · intro col row inWidth inHeight outside k within
    refine shown.painted.other (fits.supported.encode_length r g b).2 ?_ within
    rintro ⟨col', row', clipped, same⟩
    obtain ⟨rfl, rfl⟩ := cell_inj fits inWidth clipped.2.2.2.2.1 same
    exact outside clipped

/-- When the sums of `fill_rect` fit a `usize`: in a build with checks both must, `x + w`
only if a row is drawn; in a build that wraps both must if a pixel is drawn. -/
def SumsFit (overflow : Overflow) (info : FrameBufferInfo) (x y w h : UInt64) : Prop :=
  match overflow with
  | .panics => y.toNat + h.toNat < 2 ^ 64 ∧
      (y.toNat < info.height → 0 < h.toNat → x.toNat + w.toNat < 2 ^ 64)
  | .wraps => x.toNat < info.width → y.toNat < info.height → 0 < w.toNat → 0 < h.toNat →
      x.toNat + w.toNat < 2 ^ 64 ∧ y.toNat + h.toNat < 2 ^ 64

/-- The sums matter only where the rectangle has a pixel on the screen. -/
theorem region_iff {info : FrameBufferInfo} {right bottom : Nat}
    (rightLe : right ≤ x.toNat + w.toNat) (bottomLe : bottom ≤ y.toNat + h.toNat)
    (reaches : ∀ col row, info.Clipped x y w h col row → col < right ∧ row < bottom) (i : Nat) :
    Region info x y right bottom i ↔ ClippedCell info x y w h i := by
  constructor
  · rintro ⟨row, above, below, col, left, short, rfl⟩
    exact ⟨col, row, ⟨left, by omega, above, by omega, by omega, by omega⟩, rfl⟩
  · rintro ⟨col, row, clipped, rfl⟩
    obtain ⟨inRight, inBottom⟩ := reaches col row clipped
    obtain ⟨left, _, above, _, inWidth, inHeight⟩ := clipped
    exact ⟨row, above, by omega, col, left, by omega, rfl⟩

theorem fillsExactly_of_sumsFit (fits : d.Fits) (sums : SumsFit overflow d.info x y w h) :
    FillsExactly overflow x y w h r g b d := by
  cases overflow with
  | panics =>
      obtain ⟨fitsY, fitsX⟩ := sums
      have sumX (drawn : y.toNat < min (y.toNat + h.toNat) d.info.height) (d : FramebufferDriver) :
          Exec.usize .panics (x.toNat + w.toNat) d = .done (x.toNat + w.toNat) d :=
        Exec.usize_of_lt (fitsX (by omega) (by omega)) .panics d
      refine Finishes.mono (fillRect_shows fits (Exec.usize_of_lt fitsY .panics d) sumX)
        (fun _ d' shown => ?_)
      refine (shown.congr (region_iff (Nat.le_refl _) (Nat.le_refl _) ?_)).filled fits
      exact fun col row clipped => ⟨clipped.2.1, clipped.2.2.2.1⟩
  | wraps =>
      refine Finishes.mono (fillRect_shows fits (Exec.usize_wraps _ d)
        (fun _ d => Exec.usize_wraps _ d)) (fun _ d' shown => ?_)
      refine (shown.congr (region_iff (Nat.mod_le _ _) (Nat.mod_le _ _) ?_)).filled fits
      rintro col row ⟨left, short, above, below, inWidth, inHeight⟩
      obtain ⟨fitsX, fitsY⟩ := sums (by omega) (by omega) (by omega) (by omega)
      rw [Nat.mod_eq_of_lt fitsX, Nat.mod_eq_of_lt fitsY]
      exact ⟨short, below⟩

/-- A sum that wraps comes out below its first term, so that the range is empty. -/
theorem wrapped_lt {a b : UInt64} (large : ¬a.toNat + b.toNat < 2 ^ 64) :
    (a.toNat + b.toNat) % 2 ^ 64 < a.toNat := by
  have := a.toNat_lt
  have := b.toNat_lt
  omega

theorem region_empty_of_wraps {info : FrameBufferInfo}
    (large : ¬(x.toNat + w.toNat < 2 ^ 64 ∧ y.toNat + h.toNat < 2 ^ 64)) (i : Nat) :
    ¬Region info x y ((x.toNat + w.toNat) % 2 ^ 64) ((y.toNat + h.toNat) % 2 ^ 64) i := by
  rintro ⟨row, above, below, col, left, short, _⟩
  refine large ⟨?_, ?_⟩
  · by_contra wide
    have := wrapped_lt wide
    omega
  · by_contra tall
    have := wrapped_lt tall
    omega

/-- A build that wraps then draws nothing. -/
theorem fillRect_wraps (fits : d.Fits)
    (large : ¬(x.toNat + w.toNat < 2 ^ 64 ∧ y.toNat + h.toNat < 2 ^ 64)) :
    fillRect .wraps x y w h r g b d = .done () d := by
  obtain ⟨_, d', ran, shown⟩ :
      Finishes (fillRect .wraps x y w h r g b) (fun _ d' => Shows d r g b _ d') d :=
    fillRect_shows fits (Exec.usize_wraps _ d) (fun _ d => Exec.usize_wraps _ d)
  have same := shown.painted.eq (region_empty_of_wraps large)
  rw [ran]
  cases d'
  cases d
  cases shown.info
  cases same
  rfl

/-- A pixel that should be drawn is missed where it had another colour. -/
theorem sumsFit_of_wraps (fits : d.Fits)
    (fills : ∀ buffer, buffer.length = d.buffer.length →
      FillsExactly .wraps x y w h r g b { d with buffer }) :
    SumsFit .wraps d.info x y w h := by
  intro inWidth inHeight wide tall
  by_contra large
  obtain ⟨positive, encoded⟩ := fits.supported.encode_length r g b
  have inside := fits.base_inside inWidth inHeight
  obtain ⟨colour, first⟩ : ∃ colour, (d.info.pixelFormat.encode r g b)[0]? = some colour :=
    ⟨_, List.getElem?_eq_getElem positive⟩
  have length : (List.replicate d.buffer.length (colour + 1)).length = d.buffer.length :=
    List.length_replicate
  have filled := (fills _ length).done (fillRect_wraps (fits.withBuffer length) large)
  have painted := filled.painted x.toNat y.toNat
    ⟨Nat.le_refl _, by omega, Nat.le_refl _, by omega, inWidth, inHeight⟩ 0 positive
  have found : (List.replicate d.buffer.length (colour + 1))[d.info.base x.toNat y.toNat + 0]? =
      some (colour + 1) := by
    rw [List.getElem?_replicate, if_pos (by omega)]
  have same := congrArg UInt8.toNat (Option.some.inj (found.symm.trans (painted.trans first)))
  have := colour.toNat_lt
  rw [UInt8.toNat_add, UInt8.toNat_one] at same
  omega

theorem sumsFit_of_panics (fills : FillsExactly .panics x y w h r g b d) :
    SumsFit .panics d.info x y w h := by
  obtain ⟨_, d', ran, _⟩ := fills
  unfold fillRect at ran
  rw [Exec.get_bind] at ran
  have fitsY : y.toNat + h.toNat < 2 ^ 64 := by
    by_contra large
    rw [Exec.bind_of_panicked (Exec.usize_panics large d)] at ran
    cases ran
  refine ⟨fitsY, fun inHeight tall => ?_⟩
  by_contra large
  -- the first row already forms the sum
  obtain ⟨rows, count⟩ : ∃ rows, min (y.toNat + h.toNat) d.info.height - y.toNat = rows + 1 :=
    ⟨_, (Nat.succ_pred_eq_of_pos (by omega)).symm⟩
  rw [Exec.bind_of_done (Exec.usize_of_lt fitsY .panics d), forRange, count, List.range'_succ,
    Exec.forEach,
    Exec.bind_of_panicked (Exec.bind_of_panicked (Exec.usize_panics large d))] at ran
  cases ran

/-- `fill_rect` fills exactly the clipped rectangle, whatever the buffer holds, exactly if
the sums it forms fit a `usize`. -/
theorem fills_exactly_iff (fits : d.Fits) :
    (∀ buffer, buffer.length = d.buffer.length →
        FillsExactly overflow x y w h r g b { d with buffer }) ↔
      SumsFit overflow d.info x y w h := by
  constructor
  · intro fills
    cases overflow with
    | panics => exact sumsFit_of_panics (fills d.buffer rfl)
    | wraps => exact sumsFit_of_wraps fits fills
  · intro sums buffer length
    exact fillsExactly_of_sumsFit (fits.withBuffer length) sums

/-- A black screen of two pixels. -/
def twoPixels : FramebufferDriver :=
  { buffer := List.replicate 6 0
    info :=
      { width := 2
        height := 1
        stride := 2
        bytesPerPixel := 3
        pixelFormat := .rgb } }

theorem twoPixels_fits : twoPixels.Fits := ⟨by decide, Or.inl rfl, by decide, by decide⟩

/-- A rectangle that reaches beyond the right edge of the screen is clipped. -/
theorem fills_exactly_edge :
    FillsExactly .panics 1 0 2 1 255 0 0 twoPixels ∧
      FillsExactly .wraps 1 0 2 1 255 0 0 twoPixels := by
  have checked : SumsFit .panics twoPixels.info 1 0 2 1 := ⟨by decide, fun _ _ => by decide⟩
  have wrapping : SumsFit .wraps twoPixels.info 1 0 2 1 := fun _ _ _ _ => ⟨by decide, by decide⟩
  exact ⟨(fills_exactly_iff twoPixels_fits).mpr checked twoPixels.buffer rfl,
    (fills_exactly_iff twoPixels_fits).mpr wrapping twoPixels.buffer rfl⟩

/-- A rectangle that reaches beyond every edge, to the last `usize`, is not drawn: one
build panics and the other leaves the second pixel black. -/
theorem widest_rectangle_missed :
    twoPixels.Fits ∧ twoPixels.info.Clipped 1 0 0xffffffffffffffff 1 1 0 ∧
      fillRect .panics 1 0 0xffffffffffffffff 1 255 0 0 twoPixels = .panicked .overflow ∧
      fillRect .wraps 1 0 0xffffffffffffffff 1 255 0 0 twoPixels = .done () twoPixels ∧
      ∀ overflow, ¬FillsExactly overflow 1 0 0xffffffffffffffff 1 255 0 0 twoPixels := by
  have clipped : twoPixels.info.Clipped 1 0 0xffffffffffffffff 1 1 0 := by
    unfold FrameBufferInfo.Clipped
    decide
  have panics : fillRect .panics 1 0 0xffffffffffffffff 1 255 0 0 twoPixels = .panicked .overflow := rfl
  have wraps : fillRect .wraps 1 0 0xffffffffffffffff 1 255 0 0 twoPixels = .done () twoPixels := rfl
  refine ⟨twoPixels_fits, clipped, panics, wraps, fun overflow fills => ?_⟩
  cases overflow with
  | panics =>
      obtain ⟨_, _, ran, _⟩ := fills
      rw [panics] at ran
      cases ran
  | wraps =>
      have painted := (fills.done wraps).painted 1 0 clipped 0 (Nat.zero_lt_succ _)
      exact absurd painted (by decide)

end FramebufferDriver
end ComputeKernel
