/-!
# Graphic control extensions

A graphic control extension says how the image after it is shown.  Its packed byte
holds:

* bits 4 to 2: what becomes of the image before the next one is drawn;
* bit 1: the viewer waits for the user;
* bit 0: one index is transparent.
-/

namespace GifBitmap
namespace Gif

/-- What becomes of an image before the next one is drawn. -/
inductive Disposal
  | noAction
  | keep
  | background
  | previous
  /-- A number to which no meaning is assigned. -/
  | reserved (number : Nat)
  deriving Repr, DecidableEq

namespace Disposal

/-- The method in force when nothing is said: the image stays. -/
def standard : Disposal :=
  keep

/-- The method that the lowest three bits of a number stand for. -/
def ofNat (number : Nat) : Disposal :=
  match number % 8 with
  | 0 => noAction
  | 1 => keep
  | 2 => background
  | 3 => previous
  | other => reserved other

end Disposal

structure GraphicControl where
  flags : UInt8
  /-- Time to show the image, in hundredths of a second. -/
  delay : UInt16
  /-- The index that is transparent, if the packed byte says that one is. -/
  transparentIndex : UInt8
  deriving Repr, DecidableEq

namespace GraphicControl

/-- The extension whose fields are all zero. -/
def zero : GraphicControl :=
  ⟨0, 0, 0⟩

def disposal (control : GraphicControl) : Disposal :=
  .ofNat (control.flags.toNat / 4)

/-- Whether the viewer waits for the user. -/
def waitsForUser (control : GraphicControl) : Bool :=
  control.flags.toNat.testBit 1

/-- The transparent index, if there is one. -/
def transparent? (control : GraphicControl) : Option UInt8 :=
  if control.flags.toNat.testBit 0 then some control.transparentIndex else none

end GraphicControl
end Gif
end GifBitmap
