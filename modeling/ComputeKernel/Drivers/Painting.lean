import ComputeKernel.Support.Runs
import ComputeKernel.Drivers.Framebuffer

/-! The framebuffer as the rest of the kernel uses it (`kernel/src/drivers/framebuffer.rs`):
the static `FB`, which holds a driver once there is a framebuffer, and the public functions
over it. What they draw is a picture: a colour for every pixel of an unbounded plane, on
which a rectangle is painted over what was there. -/
namespace ComputeKernel
open Checked (Exec Finishes Overflow)

namespace FramebufferDriver

/-- `clear` sets every byte of the buffer to zero. -/
def clear : Exec FramebufferDriver Unit :=
  Exec.modify (fun d => { d with buffer := d.buffer.map (fun _ => 0) })

end FramebufferDriver

namespace Framebuffer

/-- The static `FB`. -/
abbrev Fb := Option FramebufferDriver

/-- `if let Some(ref mut drv) = *FB.lock()`. -/
def onDriver (m : Exec FramebufferDriver Unit) : Exec Fb Unit := fun fb =>
  match fb with
  | none => .done () none
  | some d =>
      match m d with
      | .done _ d' => .done () (some d')
      | .halted d' => .halted (some d')
      | .panicked why => .panicked why
      | .faulted address => .faulted address
      | .exhausted => .exhausted

def clear : Exec Fb Unit := onDriver FramebufferDriver.clear

def fillRect (overflow : Overflow) (x y w h : UInt64) (r g b : UInt8) : Exec Fb Unit :=
  onDriver (FramebufferDriver.fillRect overflow x y w h r g b)

/-- A driver takes over the buffer and the description of the framebuffer as they are. -/
def init (fb : FramebufferDriver) : Exec Fb Unit := do
  Exec.modify (fun _ => some fb)
  clear

structure Colour where
  r : UInt8
  g : UInt8
  b : UInt8
  deriving DecidableEq, Repr

/-- The public functions that draw. -/
inductive Call where
  | clear
  | fillRect (x y w h : UInt64) (colour : Colour)
  deriving DecidableEq, Repr

def Call.run (overflow : Overflow) : Call → Exec Fb Unit
  | .clear => Framebuffer.clear
  | .fillRect x y w h colour => Framebuffer.fillRect overflow x y w h colour.r colour.g colour.b

/-- The colours of the plane, by column and row. -/
abbrev Picture := Nat → Nat → Colour

def black : Colour := { r := 0, g := 0, b := 0 }

/-- A rectangle over the picture. -/
def Picture.paint (x y w h : Nat) (colour : Colour) (picture : Picture) : Picture := fun col row =>
  if (x ≤ col ∧ col < x + w) ∧ y ≤ row ∧ row < y + h then colour else picture col row

def Picture.after (picture : Picture) : Call → Picture
  | .clear => fun _ _ => black
  | .fillRect x y w h colour => picture.paint x.toNat y.toNat w.toNat h.toNat colour

/-- The sums of the call fit a `usize`. -/
def Call.SumsFit (overflow : Overflow) (info : FrameBufferInfo) : Call → Prop
  | .clear => True
  | .fillRect x y w h _ => FramebufferDriver.SumsFit overflow info x y w h

/-- The bytes of a pixel in a format. -/
def bytes (info : FrameBufferInfo) (colour : Colour) : List UInt8 :=
  info.pixelFormat.encode colour.r colour.g colour.b

/-- The screen shows the part of the picture that is on it, and every other byte of the buffer
is zero, as `clear` leaves it. -/
structure Displays (info : FrameBufferInfo) (size : Nat) (picture : Picture) (d : FramebufferDriver) :
    Prop where
  described : d.info = info
  length : d.buffer.length = size
  pixels : ∀ col row, col < info.width → row < info.height →
    ∀ k, k < (bytes info (picture col row)).length →
      d.buffer[info.base col row + k]? = (bytes info (picture col row))[k]?
  rest : ∀ a, a < size → (∀ col row, col < info.width → row < info.height →
      ∀ k, k < (bytes info black).length → a ≠ info.base col row + k) → d.buffer[a]? = some 0

variable {info : FrameBufferInfo} {size : Nat} {picture : Picture} {d d' : FramebufferDriver}
  {overflow : Overflow}

/-- Every colour takes as many bytes. -/
theorem bytes_length (info : FrameBufferInfo) (colour : Colour) :
    (bytes info colour).length = (bytes info black).length := by
  unfold bytes
  cases info.pixelFormat with
  | rgb | bgr | u8 | unknown => rfl

theorem bytes_black (info : FrameBufferInfo) :
    bytes info black = List.replicate (bytes info black).length 0 := by
  unfold bytes
  cases info.pixelFormat with
  | rgb | bgr | u8 | unknown => rfl

theorem onDriver_finishes {m : Exec FramebufferDriver Unit} {post : FramebufferDriver → Prop}
    (inner : Finishes m (fun _ d' => post d') d) :
    Finishes (onDriver m) (fun _ fb => ∃ d', fb = some d' ∧ post d') (some d) := by
  obtain ⟨_, d', ran, shown⟩ := inner
  exact Finishes.of_done (by rw [onDriver, ran]) ⟨d', rfl, shown⟩

theorem cleared_displays (fits : d.Fits) :
    Displays d.info d.buffer.length (fun _ _ => black) { d with buffer := d.buffer.map (fun _ => 0) } where
  described := rfl
  length := List.length_map _
  pixels := by
    intro col row inWidth inHeight k within
    have room := fits.base_inside inWidth inHeight
    have encoded := (fits.supported.encode_length black.r black.g black.b).2
    have inside : d.info.base col row + k < d.buffer.length := by
      have within : k < (d.info.pixelFormat.encode black.r black.g black.b).length := within
      omega
    have zero : (bytes d.info black)[k]? = some 0 := by
      rw [bytes_black, List.getElem?_replicate, if_pos within]
    rw [zero, List.getElem?_map, List.getElem?_eq_getElem inside]
    rfl
  rest := by
    intro a inside _
    rw [List.getElem?_map, List.getElem?_eq_getElem inside]
    rfl

/-- A filled rectangle is a rectangle painted over the picture. -/
theorem filled_displays {x y w h : UInt64} {colour : Colour} (fits : d.Fits)
    (shown : Displays info size picture d)
    (filled : FramebufferDriver.Filled x y w h colour.r colour.g colour.b d d') :
    Displays info size (picture.paint x.toNat y.toNat w.toNat h.toNat colour) d' := by
  obtain ⟨rfl, rfl, pixels, rest⟩ := shown
  refine ⟨filled.info, filled.length, ?_, ?_⟩
  · intro col row inWidth inHeight k within
    unfold Picture.paint at within ⊢
    split at within
    · next covered =>
        rw [if_pos covered]
        exact filled.painted col row
          ⟨covered.1.1, covered.1.2, covered.2.1, covered.2.2, inWidth, inHeight⟩ k within
    · next uncovered =>
        have outside : ¬d.info.Clipped x y w h col row := fun clipped =>
          uncovered ⟨⟨clipped.1, clipped.2.1⟩, clipped.2.2.1, clipped.2.2.2.1⟩
        have encoded : (bytes d.info (picture col row)).length ≤ d.info.bytesPerPixel :=
          (fits.supported.encode_length _ _ _).2
        rw [if_neg uncovered, ← pixels col row inWidth inHeight k within]
        exact filled.others col row inWidth inHeight outside k (Nat.lt_of_lt_of_le within encoded)
  · intro a inside other
    rw [filled.kept a ?_, rest a inside other]
    intro col row clipped k within
    refine other col row clipped.2.2.2.2.1 clipped.2.2.2.2.2 k ?_
    rw [← bytes_length d.info colour]
    exact within

theorem Displays.fits {fb : FramebufferDriver} (fits : fb.Fits)
    (shown : Displays fb.info fb.buffer.length picture d) : d.Fits := by
  obtain ⟨buffer, _⟩ := d
  obtain ⟨rfl, length, _, _⟩ := shown
  exact fits.withBuffer length

/-- One call changes what the screen shows as it changes the picture. -/
theorem Call.run_displays {fb : FramebufferDriver} (fits : fb.Fits)
    (shown : Displays fb.info fb.buffer.length picture d) {call : Call}
    (sums : call.SumsFit overflow fb.info) :
    Finishes (call.run overflow) (fun _ s => ∃ d', s = some d' ∧
      Displays fb.info fb.buffer.length (picture.after call) d') (some d) := by
  have room := shown.fits fits
  cases call with
  | clear =>
      rw [← shown.described, ← shown.length]
      exact onDriver_finishes (Finishes.modify (cleared_displays room))
  | fillRect x y w h colour =>
      have sums : FramebufferDriver.SumsFit overflow d.info x y w h := shown.described ▸ sums
      exact onDriver_finishes (Finishes.mono (FramebufferDriver.fillsExactly_of_sumsFit room sums)
        (fun _ d' filled => filled_displays room shown filled))

theorem calls_display {fb : FramebufferDriver} (fits : fb.Fits)
    (shown : Displays fb.info fb.buffer.length picture d) {calls : List Call}
    (sums : ∀ call ∈ calls, call.SumsFit overflow fb.info) :
    Finishes (Exec.forEach calls (Call.run overflow)) (fun _ s => ∃ d', s = some d' ∧
      Displays fb.info fb.buffer.length (Runs.run Picture.after picture calls) d') (some d) := by
  induction calls generalizing picture d with
  | nil => exact Finishes.ret ⟨d, rfl, shown⟩
  | cons call calls ih =>
      refine Finishes.andThen (Call.run_displays fits shown (sums call List.mem_cons_self)) ?_
      rintro _ _ ⟨d', rfl, drawn⟩
      exact ih drawn (fun other member => sums other (List.mem_cons_of_mem call member))

/-- Without a framebuffer every call does nothing. -/
theorem calls_without (calls : List Call) :
    Exec.forEach calls (Call.run overflow) (none : Fb) = .done () none := by
  induction calls with
  | nil => rfl
  | cons call calls ih =>
      have skipped : call.run overflow (none : Fb) = .done () none := by
        cases call with
        | clear => rfl
        | fillRect x y w h colour => rfl
      rw [Exec.forEach, Exec.bind_of_done skipped]
      exact ih

/-- Whatever was called before there is a framebuffer, and however the calls after `init`
overlap, the screen shows the picture that they paint one over another: each pixel has the
colour of the last rectangle that covers it. The framebuffer has a known format and room for
all of its rows; the bytes that no pixel uses are as `clear` has left them. -/
theorem screen_shows_picture {fb : FramebufferDriver} (fits : fb.Fits) (early calls : List Call)
    (sums : ∀ call ∈ calls, call.SumsFit overflow fb.info) :
    Finishes (do
      Exec.forEach early (Call.run overflow)
      init fb
      Exec.forEach calls (Call.run overflow)) (fun _ s => ∃ d, s = some d ∧
        Displays fb.info fb.buffer.length (Runs.run Picture.after (fun _ _ => black) calls) d) none := by
  refine Finishes.bind (Finishes.of_done (calls_without early) ?_)
  refine Finishes.andThen (Finishes.bind (Finishes.modify
    (onDriver_finishes (Finishes.modify (cleared_displays fits))))) ?_
  rintro _ _ ⟨d, rfl, cleared⟩
  exact calls_display fits cleared sums

/-- Two rectangles that overlap on a screen of two pixels. -/
theorem screen_shows_picture_overlap :
    FramebufferDriver.twoPixels.Fits ∧ Finishes (do
      Exec.forEach [Call.clear] (Call.run .panics)
      init FramebufferDriver.twoPixels
      Exec.forEach [Call.fillRect 0 0 2 1 ⟨255, 0, 0⟩, Call.fillRect 1 0 5 5 ⟨0, 255, 0⟩]
        (Call.run .panics)) (fun _ s => ∃ d, s = some d ∧
          Displays FramebufferDriver.twoPixels.info 6
            (Runs.run Picture.after (fun _ _ => black)
              [.fillRect 0 0 2 1 ⟨255, 0, 0⟩, .fillRect 1 0 5 5 ⟨0, 255, 0⟩]) d) none := by
  have fits : FramebufferDriver.twoPixels.Fits := FramebufferDriver.twoPixels_fits
  refine ⟨fits, screen_shows_picture fits _ _ ?_⟩
  intro call member
  rcases List.mem_cons.mp member with rfl | member
  · exact ⟨by decide, fun _ _ => by decide⟩
  · rw [List.mem_singleton.mp member]
    exact ⟨by decide, fun _ _ => by decide⟩

end Framebuffer
end ComputeKernel
