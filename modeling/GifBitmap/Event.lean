import GifBitmap.Text
import GifBitmap.Gif.Screen
import GifBitmap.Gif.ImageDescriptor
import GifBitmap.Gif.GraphicControl
import GifBitmap.Gif.Extension
import GifBitmap.Bmp.Layout

/-!
# Events worth a record

While a picture is read, composed and written, events are noted in the order in
which they happen.  Each event has a level of severity, the name of the part that
noted it, and a wording.
-/

namespace GifBitmap

/-- How severe an event is. -/
inductive Level
  | error
  | warn
  | info
  | debug
  | trace
  deriving Repr, DecidableEq

namespace Level

def name : Level → String
  | error => "ERROR"
  | warn => "WARN"
  | info => "INFO"
  | debug => "DEBUG"
  | trace => "TRACE"

/-- The place of a level, the most severe first. -/
def rank : Level → Nat
  | error => 1
  | warn => 2
  | info => 3
  | debug => 4
  | trace => 5

end Level

/-- The events of a conversion. -/
inductive Event
  /-- The header was read. -/
  | header (version : Bytes)
  /-- The logical screen descriptor was read. -/
  | screen (descriptor : Gif.Screen)
  /-- A color table was read. -/
  | colorTable (length : Nat)
  /-- An extension with this many bytes was passed over. -/
  | extensionSkipped (kind : Gif.Extension) (size : Nat)
  /-- A graphic control extension was read. -/
  | graphicControl (control : Gif.GraphicControl)
  /-- An image descriptor was read. -/
  | image (descriptor : Gif.ImageDescriptor)
  /-- A block of image data was read and is going to be decompressed. -/
  | imageData (size : Nat)
  /-- A block of image data was read and is not used. -/
  | imageDataSkipped (size : Nat)
  /-- There were more indices than pixels. -/
  | indicesTruncated (pixels : Nat)
  /-- The image data ended without an end code. -/
  | endCodeMissing
  /-- The image reaches beyond the screen. -/
  | imageClipped (descriptor : Gif.ImageDescriptor)
  /-- A bitmap of this many bytes was written. -/
  | bitmapWritten (layout : Bmp.Layout) (size : Nat)
  /-- A conversion is complete. -/
  | converted (gifSize bitmapSize : Nat)
  deriving Repr, DecidableEq

namespace Event

def level : Event → Level
  | indicesTruncated _ | endCodeMissing | imageClipped _ => .warn
  | converted .. => .info
  | _ => .debug

/-- The name of the part that notes an event. -/
def origin : Event → String
  | imageClipped _ | converted .. => "gif2bmp::convert"
  | bitmapWritten .. => "gif2bmp::bmp"
  | _ => "gif2bmp::decode"

def screenText (screen : Gif.Screen) : String :=
  Text.record "LogicalScreenDesc" [
    ("screen_width", toString screen.width.toNat),
    ("screen_height", toString screen.height.toNat),
    ("flags", toString screen.flags.toNat),
    ("background_color_idx", toString screen.background.toNat),
    ("pixel_aspect_ratio", toString screen.aspect.toNat)]

def imageText (image : Gif.ImageDescriptor) : String :=
  Text.record "ImageDesc" [
    ("left", toString image.left.toNat),
    ("top", toString image.top.toNat),
    ("width", toString image.width.toNat),
    ("height", toString image.height.toNat),
    ("flags", toString image.flags.toNat)]

def controlText (control : Gif.GraphicControl) : String :=
  Text.record "GraphicControl" [
    ("flags", toString control.flags.toNat),
    ("delay_time_cs", toString control.delay.toNat),
    ("transparent_color_idx", toString control.transparentIndex.toNat)]

def layoutText (layout : Bmp.Layout) : String :=
  Text.record "Layout" [
    ("width", toString layout.width.toNat),
    ("height", toString layout.height.toNat),
    ("colors", toString layout.colors.toNat)]

def extensionText : Gif.Extension → String
  | .plainText => "PlainText_"
  | .comment => "Comment_"
  | .application => "Application_"
  | .unknown label => "Unknown_(" ++ toString label.toNat ++ ")"

def text : Event → String
  | .header version => "  block  : Header " ++ Text.byteList version
  | .screen descriptor => "  block  : " ++ screenText descriptor
  | .colorTable length => "  block  : ColorTable " ++ toString length
  | .extensionSkipped kind size =>
      "  block  : " ++ extensionText kind ++ " skipped " ++ toString size
  | .graphicControl control => "  block  : " ++ controlText control
  | .image descriptor => "  block  : " ++ imageText descriptor
  | .imageData size => "sub-block: ImageData " ++ toString size
  | .imageDataSkipped size => "sub-block: ImageData " ++ toString size ++ " skipped"
  | .indicesTruncated pixels =>
      "Image data exceeds " ++ toString pixels ++ " pixels; truncated"
  | .endCodeMissing => "Image data has no end code"
  | .imageClipped descriptor => "Image clipped to screen: " ++ imageText descriptor
  | .bitmapWritten layout size =>
      "BMP: " ++ layoutText layout ++ ", " ++ toString size ++ " bytes"
  | .converted gifSize bitmapSize =>
      "converted: " ++ toString gifSize ++ " GIF bytes, " ++ toString bitmapSize ++ " BMP bytes"

/-- The events at a level or more severe, in order. -/
def atLeast (level : Level) (events : List Event) : List Event :=
  events.filter fun event => event.level.rank ≤ level.rank

end Event
end GifBitmap
