import Famicom.Television

/-!
# The beam

A frame runs from the pre-render line, numbered -1, over the visible lines 0 to 239 and an idle line
to the end of the vertical blank, with 341 dots on each line. On the standard that drops a dot, the
last dot of the pre-render line is left out of every odd frame while the picture is being rendered.
-/

namespace Famicom

/-- Where the beam is, and how many frames it has completed. -/
structure Beam where
  television : Television
  line : Int := -1
  dot : Nat := 0
  oddFrame : Bool := false
  frames : Nat := 0
  deriving DecidableEq, Repr

namespace Beam

/-- The line before the first visible one. -/
def preRenderLine : Int := -1

/-- The line on which the vertical blank starts. -/
def blankLine : Int := 241

/-- The last line of a frame. -/
def lastLine (b : Beam) : Int := b.television.lines - 2

/-- The beam at the start of its first frame. -/
def reset (b : Beam) : Beam := { television := b.television }

/-- On a line for which the picture is fetched, visible or pre-render. -/
def onRenderLine (b : Beam) : Bool := b.line < 240

/-- On a visible line. -/
def onVisibleLine (b : Beam) : Bool := 0 ≤ b.line && b.line < 240

/-- At a given line and dot. -/
def isAt (b : Beam) (line : Int) (dot : Nat) : Bool := b.line == line && b.dot == dot

/-- The last dot of the line is to be left out. -/
def dropsDot (b : Beam) (rendering : Bool) : Bool :=
  b.isAt preRenderLine (Television.dotsPerLine - 2) && b.oddFrame && rendering &&
    b.television.dropsOddDot

/-- On to the next dot, telling whether that ended a frame. -/
def advance (b : Beam) (rendering : Bool) : Bool × Beam :=
  if b.dropsDot rendering then (false, { b with line := 0, dot := 0 })
  else if b.dot + 1 < Television.dotsPerLine then (false, { b with dot := b.dot + 1 })
  else if b.line < b.lastLine then (false, { b with line := b.line + 1, dot := 0 })
  else
    (true, { b with
      line := preRenderLine
      dot := 0
      oddFrame := !b.oddFrame
      frames := b.frames + 1 })

/-- Advances `n` times and lists, after the reverse of `found`, which of the advances ended a
frame, the first one being number `next`. -/
def advanceManyFrom (rendering : Bool) (found : List Nat) (next : Nat) :
    Nat → Beam → List Nat × Beam
  | 0, b => (found.reverse, b)
  | n + 1, b =>
    let (ended, b) := b.advance rendering
    advanceManyFrom rendering (if ended then next :: found else found) (next + 1) n b

/-- Advances `n` times and lists which of the advances, counted from one, ended a frame. -/
def advanceMany (b : Beam) (n : Nat) (rendering : Bool) : List Nat × Beam :=
  advanceManyFrom rendering [] 1 n b

end Beam

end Famicom
