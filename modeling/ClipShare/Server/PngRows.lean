import ClipShare.Posix.Block

namespace ClipShare

open Posix

/-!
# The rows of a screenshot

`png_write_buf` converts the rows of an image of the X server one by one into a row of its own, and
hands that row to libpng.  A read or a write outside of a block is a fault.

* `XImage` — the fields of an image that are used;
* `convertrowLsb` / `convertrowMsb` — a row, by the byte order of the image;
* `pngWriteBuf` — all rows, as libpng gets them.
-/

/-- An image of the X server. -/
structure XImage where
  width : Nat
  height : Nat
  bitsPerPixel : Nat
  bytesPerLine : Nat
  lsbFirst : Bool
  data : Bytes

/-- An `unsigned char`. -/
def XImage.bytesPerPixel (img : XImage) : Nat := img.bitsPerPixel / 8 % 256

/-- The loop of both conversions: three bytes from the offsets `a`, `b` and `c` of a pixel, as long
    as three bytes are left in the line.  Every turn writes three bytes of `drow`, so there are at
    most as many turns as bytes. -/
def convertrowLoop (a b c : Nat) (img : XImage) (srow : Nat) :
    Nat → Nat → Nat → Bytes → Option Bytes
  | 0, _, _, _ => none
  | fuel + 1, sx, dx, drow =>
    if sx + 3 ≤ img.bytesPerLine then do
      let drow ← store drow dx [← img.data[srow + sx + a]?]
      let drow ← store drow (dx + 1) [← img.data[srow + sx + b]?]
      let drow ← store drow (dx + 2) [← img.data[srow + sx + c]?]
      convertrowLoop a b c img srow fuel (sx + img.bytesPerPixel) (dx + 3) drow
    else some drow

/-- Least significant byte first: BGRA to RGB. -/
def convertrowLsb (drow : Bytes) (srow : Nat) (img : XImage) : Option Bytes :=
  convertrowLoop 2 1 0 img srow (drow.length + 1) 0 0 drow

/-- Most significant byte first: ARGB to RGB. -/
def convertrowMsb (drow : Bytes) (srow : Nat) (img : XImage) : Option Bytes :=
  convertrowLoop 1 2 3 img srow (drow.length + 1) 0 0 drow

/-- The conversion that `png_write_buf` picks. -/
def XImage.convert (img : XImage) : Bytes → Nat → XImage → Option Bytes :=
  if img.lsbFirst then convertrowLsb else convertrowMsb

/-- The rows from position `srow` on.  libpng takes three bytes for each pixel. -/
def pngRows (img : XImage) : Nat → Nat → Bytes → Option (List Bytes)
  | 0, _, _ => some []
  | h + 1, srow, drow => do
    let drow ← img.convert drow srow img
    let rows ← pngRows img h (srow + img.bytesPerLine) drow
    return drow.take (3 * img.width) :: rows

/-- `png_write_buf`: the rows that libpng gets. -/
def pngWriteBuf (junk : Nat → UInt8) (img : XImage) : Option (List Bytes) :=
  pngRows img img.height 0 (malloc junk (img.width * 4))

end ClipShare
