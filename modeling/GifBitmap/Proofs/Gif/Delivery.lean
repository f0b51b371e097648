import Mathlib.Data.List.Permutation
import GifBitmap.Proofs.Gif.Truncation

/-!
# How the bytes arrive

A source may deliver its bytes in small pieces and interrupt every other request.  Nobody who
decodes pictures from it can tell: all that can be seen of any number of readings is the same
with a source that delivers at once what is asked for, up to the place where it fails or ends.
After every reading the two inputs differ in the manner of delivery only (`decode_atOnce`), and
that is kept up over all the readings that follow.

Main facts:
* `decode_atOnce`: one reading;
* `observed_decodeTimes`: any number of readings.
-/

namespace GifBitmap

/-- The same source, but what is asked for is delivered at once. -/
def Source.atOnce (source : Source) : Source :=
  { source with
    interruptNext := false
    manner := { source.manner with
      chunk := none
      interrupts := false } }

/-- The same input, but what is asked for is delivered at once. -/
def Input.atOnce (input : Input) : Input :=
  { input with source := input.source.atOnce }

namespace Gif

open FieldReader

/-- One reading has the same result however the bytes arrive, and what it leaves differs in the
manner of delivery only. -/
theorem decode_atOnce
    (limit : PixelLimit)
    {input : Input}
    (hchunk : input.source.manner.chunk ≠ some 0) :
    (decode limit input.atOnce).1 = (decode limit input).1 ∧
      (decode limit input.atOnce).2.atOnce = (decode limit input).2.atOnce ∧
      (decode limit input).2.source.manner = input.source.manner := by
  have hsmooth : input.atOnce.source.manner.chunk ≠ some 0 := nofun
  -- Both are scans of the same bytes, from the same position on.
  obtain ⟨interruptNext, hreading⟩ := decode_eq_scan limit input hchunk
  obtain ⟨smoothNext, hatOnce⟩ := decode_eq_scan limit input.atOnce hsmooth
  rw [hreading, hatOnce]
  exact ⟨rfl, rfl, rfl⟩

/-- Two inputs that differ in the manner of delivery only look the same over any number of
readings. -/
theorem map_observed_of_atOnce_eq
    (limit : PixelLimit)
    (count : Nat)
    {first second : Input}
    (hfirst : first.source.manner.chunk ≠ some 0)
    (hsecond : second.source.manner.chunk ≠ some 0)
    (h : first.atOnce = second.atOnce) :
    (decodeTimes limit count first).map observed =
      (decodeTimes limit count second).map observed := by
  induction count generalizing first second with
  | zero => rfl
  | succ count ih =>
      obtain ⟨hresult, hrest, hmanner⟩ := decode_atOnce limit hfirst
      obtain ⟨hresult', hrest', hmanner'⟩ := decode_atOnce limit hsecond
      rw [h] at hresult hrest
      have hsame : (decode limit first).2.atOnce = (decode limit second).2.atOnce :=
        hrest.symm.trans hrest'
      have hhead : observed (decode limit first) = observed (decode limit second) :=
        calc observed (decode limit first)
          _ = observed ((decode limit first).1, (decode limit first).2.atOnce) := rfl
          _ = observed ((decode limit second).1, (decode limit second).2.atOnce) := by
            rw [hsame, hresult.symm.trans hresult']
          _ = observed (decode limit second) := rfl
      have htail := ih (by rw [hmanner]; exact hfirst) (by rw [hmanner']; exact hsecond) hsame
      rw [decodeTimes, decodeTimes, List.map_cons, List.map_cons, hhead, htail]

/-- Whatever bytes a source holds, and wherever it fails: the results of any number of
readings, the bytes consumed and delivered after each of them, and the events are the same as
with the source that delivers at once what is asked for. -/
theorem observed_decodeTimes
    (limit : PixelLimit)
    (count : Nat)
    {source : Source}
    (hchunk : source.manner.chunk ≠ some 0) :
    (decodeTimes limit count (.ofSource source)).map observed =
      (decodeTimes limit count (.ofSource source.atOnce)).map observed :=
  map_observed_of_atOnce_eq limit count hchunk nofun rfl

/-- Three readings of two files, the second of which a source fails to deliver in the middle of
a block. -/
theorem observed_decodeTimes_of_two_files :
    let bytes := singlePixelFile.take 28 ++ singlePixelFile
    let fault := some (54, (⟨.brokenPipe, "broken pipe"⟩ : StreamError))
    let readings := decodeTimes (some 1) 3 (.ofSource (.ofBytes bytes ⟨some 1, true, fault⟩))
    readings.map observed =
        (decodeTimes (some 1) 3 (.ofSource (.ofBytes bytes ⟨none, false, fault⟩))).map observed ∧
      (readings.map fun reading => (reading.2.consumed, reading.2.source.delivered)) =
        [(28, 28), (53, 54), (53, 54)] := by
  refine ⟨observed_decodeTimes (some 1) 3 (by simp [Source.ofBytes]), ?_⟩
  simp only [decodeTimes, decode_eq_run_rounds]
  cbv

end Gif
end GifBitmap
