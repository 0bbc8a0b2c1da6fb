/-!
# Pictures

A picture is a set of vertical runs of opaque pixels; what no run covers is transparent.
-/

namespace Interlude

/-- A run of pixels in one column, from the row `rowStart` downwards. -/
structure Post where
  column : UInt16
  rowStart : UInt16
  pixels : List UInt8
  deriving DecidableEq, Repr

/-- Runs on a canvas, later ones over earlier ones, with the place of the origin on it. -/
structure Picture where
  width : UInt16
  height : UInt16
  left : Int16
  top : Int16
  posts : List Post
  deriving DecidableEq, Repr

namespace Picture

/-- Whether the origin lies elsewhere than in the corner. -/
def hasOffset (p : Picture) : Bool :=
  p.left != 0 || p.top != 0

/-- The number of pixels in the runs of a column. -/
def columnPixels (p : Picture) (column : UInt16) : Nat :=
  ((p.posts.filter (·.column == column)).flatMap (·.pixels)).length

end Picture

end Interlude
