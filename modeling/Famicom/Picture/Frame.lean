import Famicom.Fingerprint
import Famicom.Picture.Colour
import Famicom.Television

/-!
# Frames

A picture of 256 by 240 pixels, kept twice: the chip draws on the back while everyone else sees the
front, and a completed frame exchanges the two. So what is seen is always a whole frame.
-/

namespace Famicom

/-- The pixels of a picture. -/
def pixelCount : Nat := Television.screenWidth * Television.screenHeight

/-- A picture, row by row. -/
abbrev Picture := Vector Colour pixelCount

/-- The picture shown and the picture being drawn. -/
structure FrameBuffer where
  front : Picture
  back : Picture

namespace FrameBuffer

/-- Two black pictures. -/
def blank : FrameBuffer := ⟨Vector.replicate _ .black, Vector.replicate _ .black⟩

/-- The place of a pixel. -/
def place (x y : Nat) : Nat := y * Television.screenWidth + x

theorem place_lt {x y : Nat} (hx : x < 256) (hy : y < 240) : place x y < pixelCount := by
  simp only [place, pixelCount, Television.screenWidth, Television.screenHeight]
  omega

/-- Draws a pixel. -/
def draw (f : FrameBuffer) (x y : Nat) (colour : Colour) (hx : x < 256) (hy : y < 240) :
    FrameBuffer :=
  match f with
  | ⟨front, back⟩ => ⟨front, back.set (place x y) colour (place_lt hx hy)⟩

/-- Shows what has been drawn. -/
def swap (f : FrameBuffer) : FrameBuffer :=
  match f with
  | ⟨front, back⟩ => ⟨back, front⟩

/-- The pixel shown at a place, if the picture reaches so far. Only the place counts, so a column
beyond the right edge is in a later row. -/
def pixel? (f : FrameBuffer) (x y : Nat) : Option Colour := f.front[place x y]?

/-- The row of pixels shown at a height, if the picture is so high. -/
def row? (f : FrameBuffer) (y : Nat) : Option (Array Colour) :=
  if y < Television.screenHeight then
    some (f.front.toArray.extract (place 0 y) (place 0 (y + 1)))
  else none

/-- The fingerprint of what is shown. -/
def checksum (f : FrameBuffer) : UInt64 := Fingerprint.ofWords f.front.toArray

/-- The bytes of a colour, blue first. -/
def bytesOf (colour : Colour) : List UInt8 :=
  [colour.toUInt8, (colour >>> 8).toUInt8, (colour >>> 16).toUInt8, (colour >>> 24).toUInt8]

/-- The pixels shown, four bytes each, put over the front of `dest`. A pixel that does not fit as a
whole is left out, and so is what is beyond the last pixel. -/
def copyInto (f : FrameBuffer) (dest : List UInt8) : List UInt8 :=
  let pixels := (f.front.toList.take (dest.length / 4)).flatMap bytesOf
  pixels ++ dest.drop pixels.length

end FrameBuffer

end Famicom
