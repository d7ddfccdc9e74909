import ResourcePack.Bytes

/-!
# Interlacing

An interlaced picture is stored as seven smaller ones, each made of the pixels on a grid
of its own. Grids that have no pixel are left out.
-/

namespace ResourcePack

namespace Png

/-- A grid of pixels: its first column and row, and the steps from one to the next. -/
structure Pass where
  left : Nat
  top : Nat
  right : Nat
  down : Nat
  deriving DecidableEq, Repr

namespace Pass

/-- The one grid of a picture that is not interlaced. -/
def whole : Pass := ⟨0, 0, 1, 1⟩

/-- The grids of an interlaced picture, in the order in which they are stored. -/
def adam7 : List Pass :=
  [⟨0, 0, 8, 8⟩, ⟨4, 0, 8, 8⟩, ⟨0, 4, 4, 8⟩, ⟨2, 0, 4, 4⟩, ⟨0, 2, 2, 4⟩, ⟨1, 0, 2, 2⟩,
    ⟨0, 1, 1, 2⟩]

/-- How many of `extent` places a grid has that starts at `first` and goes on in
steps. -/
def count (extent first step : Nat) : Nat :=
  (extent - first + step - 1) / step

def columns (pass : Pass) (width : Nat) : Nat := count width pass.left pass.right

def rows (pass : Pass) (height : Nat) : Nat := count height pass.top pass.down

/-- Put the rows of a grid into a picture of the given width. -/
def scatter {α : Type} (pass : Pass) (width : Nat) (rows : List (List α)) (picture : Array α) :
    Array α :=
  rows.zipIdx.foldl
    (fun picture (row, y) =>
      row.zipIdx.foldl
        (fun picture (pixel, x) =>
          picture.setIfInBounds
            ((pass.top + y * pass.down) * width + (pass.left + x * pass.right)) pixel)
        picture)
    picture

end Pass

end Png

end ResourcePack
