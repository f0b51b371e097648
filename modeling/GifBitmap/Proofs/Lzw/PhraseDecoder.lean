import GifBitmap.Proofs.Lzw.BitString

/-!
# Decoding by a plain list of phrases

The format describes decompression without any of the devices that make it fast: codes
are cut off one flat string of bits, and the table is a plain list that holds the
whole phrase of every code.  `PhraseDecoder.decode` is that description.  It shares no
definition with the code table, the expander or the bit buffer.
-/

namespace GifBitmap
namespace Lzw

/-- The state of the plain decoder between two codes. -/
structure PhraseDecoder where
  /-- The phrases of the codes from zero on. -/
  phrases : List (List Nat)
  /-- The number of bits of the next code. -/
  width : Nat
  width_pos : 0 < width
  /-- The code before the next one, unless that was a clear code. -/
  previous : Option Nat

namespace PhraseDecoder

/-- One phrase for each code that stands for a single index, and two slots that are
never looked up. -/
def initialPhrases (bits : Nat) : List (List Nat) :=
  (List.range (2 ^ bits)).map (fun index => [index]) ++ [[], []]

/-- The state at the start and after a clear code. -/
def initial (bits : Nat) : PhraseDecoder where
  phrases := initialPhrases bits
  width := min 12 (bits + 1)
  width_pos := by omega
  previous := none

def phrase (decoder : PhraseDecoder) (code : Nat) : List Nat :=
  decoder.phrases[code]?.getD []

/-- The width after an entry was put into the next slot: it grows with the last slot
that codes of the width can name, up to twelve bits. -/
def widthAfterEntry (decoder : PhraseDecoder) : Nat :=
  if decoder.phrases.length = 2 ^ decoder.width - 1 ∧ decoder.width < 12 then
    decoder.width + 1
  else
    decoder.width

/-- Puts a phrase into the next slot, unless there are 4096 of them. -/
def assign (decoder : PhraseDecoder) (entry : List Nat) : PhraseDecoder :=
  if decoder.phrases.length < 4096 then
    { decoder with
      phrases := decoder.phrases ++ [entry]
      width := decoder.widthAfterEntry
      width_pos := by
        have hpos := decoder.width_pos
        unfold widthAfterEntry
        split <;> omega }
  else
    decoder

/-- The state after a code that stands for a phrase. -/
def remember (decoder : PhraseDecoder) (code : Nat) : PhraseDecoder :=
  { decoder with previous := some code }

inductive Action
  /-- Decoding goes on, with further indices. -/
  | emit (decoder : PhraseDecoder) (indices : List Nat)
  /-- Decoding is complete. -/
  | finish
  /-- The code cannot be decoded. -/
  | fail (cause : Error)

/-- Decodes one code. -/
def step (bits : Nat) (decoder : PhraseDecoder) (code : Nat) : Action :=
  if code = 2 ^ bits then
    .emit (initial bits) []
  else if code = 2 ^ bits + 1 then
    .finish
  else if 256 ≤ code ∧ code < 2 ^ bits then
    .fail (.indexOutOfRange code)
  else
    match decoder.previous with
    | none =>
        if code < 2 ^ bits then
          .emit (decoder.remember code) [code]
        else
          .fail (.undefinedCode code decoder.phrases.length)
    | some previous =>
        let before := decoder.phrase previous
        if code < decoder.phrases.length then
          let found := decoder.phrase code
          .emit ((decoder.assign (before ++ found.take 1)).remember code) found
        else if code = decoder.phrases.length then
          let found := before ++ before.take 1
          .emit ((decoder.assign found).remember code) found
        else
          .fail (.undefinedCode code decoder.phrases.length)

/-- What a string of bits decodes to. -/
structure Output where
  indices : List Nat
  /-- Whether the end code was met. -/
  finished : Bool
  failure : Option Error

/-- Decodes codes as long as enough bits are left for one. -/
def run (bits : Nat) (decoder : PhraseDecoder) (input : BitString) : Output :=
  if decoder.width ≤ input.length then
    match decoder.step bits (ofLowBits (input.take decoder.width)) with
    | .emit next indices =>
        let output := run bits next (input.drop decoder.width)
        { output with indices := indices ++ output.indices }
    | .finish => ⟨[], true, none⟩
    | .fail cause => ⟨[], false, some cause⟩
  else
    ⟨[], false, none⟩
termination_by input.length
decreasing_by
  have hpos := decoder.width_pos
  rw [List.length_drop]
  omega

/-- Decodes a string of bits from the start, for a minimum code size of `bits`. -/
def decode (bits : Nat) (input : BitString) : Output :=
  (initial bits).run bits input

theorem run_of_lt
    {bits : Nat}
    {decoder : PhraseDecoder}
    {input : BitString}
    (h : input.length < decoder.width) :
    decoder.run bits input = ⟨[], false, none⟩ := by
  rw [run, if_neg (by omega)]

/-- A code in front of the bits is decoded first. -/
theorem run_lowBits_append
    {bits code : Nat}
    {decoder : PhraseDecoder}
    (hcode : code < 2 ^ decoder.width)
    (rest : BitString) :
    decoder.run bits (lowBits decoder.width code ++ rest) =
      match decoder.step bits code with
      | .emit next indices =>
          let output := next.run bits rest
          { output with indices := indices ++ output.indices }
      | .finish => ⟨[], true, none⟩
      | .fail cause => ⟨[], false, some cause⟩ := by
  have hlength : decoder.width ≤ (lowBits decoder.width code ++ rest).length := by
    rw [List.length_append, length_lowBits]
    omega
  rw [run, if_pos hlength, List.take_left' (length_lowBits _ _),
    List.drop_left' (length_lowBits _ _), ofLowBits_lowBits_of_lt hcode]

theorem length_initialPhrases (bits : Nat) :
    (initialPhrases bits).length = 2 ^ bits + 2 := by
  simp [initialPhrases]

theorem getElem?_initialPhrases
    {bits code : Nat}
    (h : code < 2 ^ bits) :
    (initialPhrases bits)[code]? = some [code] := by
  unfold initialPhrases
  rw [List.getElem?_append_left (by simpa using h)]
  simp [h]

theorem phrases_assign_of_lt
    {decoder : PhraseDecoder}
    (h : decoder.phrases.length < 4096)
    (entry : List Nat) :
    (decoder.assign entry).phrases = decoder.phrases ++ [entry] := by
  rw [assign, if_pos h]

theorem width_assign_of_lt
    {decoder : PhraseDecoder}
    (h : decoder.phrases.length < 4096)
    (entry : List Nat) :
    (decoder.assign entry).width = decoder.widthAfterEntry := by
  rw [assign, if_pos h]

theorem assign_of_le
    {decoder : PhraseDecoder}
    (h : 4096 ≤ decoder.phrases.length)
    (entry : List Nat) :
    decoder.assign entry = decoder :=
  if_neg (by omega)

@[simp]
theorem phrases_remember (decoder : PhraseDecoder) (code : Nat) :
    (decoder.remember code).phrases = decoder.phrases :=
  rfl

@[simp]
theorem width_remember (decoder : PhraseDecoder) (code : Nat) :
    (decoder.remember code).width = decoder.width :=
  rfl

@[simp]
theorem previous_remember (decoder : PhraseDecoder) (code : Nat) :
    (decoder.remember code).previous = some code :=
  rfl

end PhraseDecoder
end Lzw
end GifBitmap
