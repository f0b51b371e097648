import GifBitmap.Main
import GifBitmap.Command.Directory
import GifBitmap.Proofs.Lzw.RoundTrip
import GifBitmap.Proofs.Lzw.Registers
import GifBitmap.Proofs.Lzw.CodeWidth
import GifBitmap.Proofs.Lzw.FailedCode
import GifBitmap.Proofs.Gif.Acceptance
import GifBitmap.Proofs.Gif.Delivery
import GifBitmap.Proofs.Gif.Repetition
import GifBitmap.Proofs.Gif.DataBlocks
import GifBitmap.Proofs.Gif.Faults
import GifBitmap.Proofs.FaultySink
import GifBitmap.Proofs.Bmp.Reuse
import GifBitmap.Proofs.Command.Holdings
import GifBitmap.Proofs.Command.Run
import GifBitmap.Proofs.Composition
import GifBitmap.Proofs.UnseenFields
import GifBitmap.Proofs.Command.Outcome
import GifBitmap.Proofs.Command.Printing
import GifBitmap.Proofs.Gif.SkippedExtensions
import GifBitmap.Proofs.Gif.SizeLimit
import GifBitmap.Proofs.Bmp.WordSizes
import GifBitmap.Proofs.Bmp.WrittenFile
import GifBitmap.Proofs.Lzw.BitConservation
import GifBitmap.Proofs.Lzw.PhraseLengths
import GifBitmap.Proofs.Lzw.PhraseExpansion
import GifBitmap.Proofs.ConversionEvents
