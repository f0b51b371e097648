import GifBitmap.Text
import GifBitmap.Gif.Picture

/-!
# The summary of a picture

Four lines for a reader: the version and size of the screen, its background and
global color table, the names of the columns, and the image in one row of them.
-/

namespace GifBitmap
namespace Command

/-- The short name of a disposal method; a dash if no method is given. -/
def disposalText : Option Gif.Disposal → String
  | none => "-"
  | some .noAction => "none"
  | some .keep => "keep"
  | some .background => "bg"
  | some .previous => "prev"
  | some (.reserved _) => "res"

def pairText (sign : String) (first second : UInt16) : String :=
  toString first.toNat ++ sign ++ toString second.toNat

/-- The number of colors of the image, marked if the table is the global one. -/
def colorsText (picture : Gif.Picture) : String :=
  let own := picture.frame.image.tableShape.length
  if 0 < own then
    "  " ++ Text.alignRight 3 (toString own)
  else
    " " ++ Text.alignRight 3 (toString picture.preamble.screen.tableShape.length) ++ "g"

def transparentText (control : Option Gif.GraphicControl) : String :=
  match control.bind Gif.GraphicControl.transparent? with
  | some index => toString index.toNat
  | none => "-"

def imageRow (picture : Gif.Picture) : String :=
  let image := picture.frame.image
  let control := picture.frame.control
  let delay := (control.map fun found => found.delay.toNat).getD 0
  (if image.interlaced then "i" else " ") ++
    " " ++ Text.alignRight 6 (Text.hundredths delay) ++
    " " ++ Text.alignRight 4 (disposalText (control.map Gif.GraphicControl.disposal)) ++
    " " ++ Text.alignRight 6 (pairText "x" image.width image.height) ++
    " " ++ Text.alignRight 6 (pairText "," image.left image.top) ++
    colorsText picture ++
    " " ++ Text.alignRight 3 (transparentText control)

/-- The version of a file as text. -/
def versionText (version : Bytes) : String :=
  String.ofList (version.map fun byte => Char.ofNat byte.toNat)

def summary (picture : Gif.Picture) : String :=
  let screen := picture.preamble.screen
  "GIF" ++ versionText picture.preamble.version ++
    ", screen: " ++ pairText "x" screen.width screen.height ++ "\n" ++
    "  background: " ++ toString screen.background.toNat ++
    ", colors: " ++ toString screen.tableShape.length ++ "\n" ++
    "  Delay Disp   Size    X,Y Clrs Trn\n" ++
    imageRow picture ++ "\n"

end Command
end GifBitmap
