import GifBitmap.Lzw.Table

/-!
# From codes to indices

An expander turns one code after another into the phrase it stands for, while it
assigns new codes: each code but the first after a clear code assigns the phrase of
the code before it followed by the first index of its own phrase.
-/

namespace GifBitmap
namespace Lzw

/-- The state between two codes. -/
structure Expander where
  size : CodeSize
  table : Table
  /-- The width of the next code. -/
  width : Width
  /-- The code before the next one, unless that was a clear code. -/
  previous : Option Nat
  /-- Whether the end code was met. -/
  finished : Bool
  deriving Repr, DecidableEq

namespace Expander

/-- The state before the first code. -/
def initial (size : CodeSize) : Expander where
  size := size
  table := .initial size
  width := .initial size
  previous := none
  finished := false

def clear (expander : Expander) : Expander :=
  { expander with
    table := expander.table.reset expander.size
    width := .initial expander.size
    previous := none }

def finish (expander : Expander) : Expander :=
  { expander with finished := true }

/-- The width after a code: it grows when the slot that the code assigns is the last
one of the current width. -/
def widthAfter (expander : Expander) : Width :=
  if expander.table.next + 1 = expander.width.codes then
    expander.width.grow
  else
    expander.width

/-- The table after a code that follows `previous`.  A code that is not yet assigned
stands for the phrase before it followed by that phrase's own first index. -/
def tableAfter (expander : Expander) (previous code : Nat) : Table :=
  let source := if code < expander.table.next then code else previous
  expander.table.push previous (expander.table.first source)

/-- Takes one code that stands for a phrase, and gives that phrase. -/
def expand (expander : Expander) (code : Nat) : Except Error (Expander × List UInt8) :=
  match expander.previous with
  | none =>
      if code < expander.size.clearCode then
        .ok ({ expander with previous := some code }, expander.table.phrase code)
      else
        .error (.undefinedCode code expander.table.next)
  | some previous =>
      if code ≤ expander.table.next then
        let table := expander.tableAfter previous code
        .ok
          ({ expander with
             table := table
             width := expander.widthAfter
             previous := some code },
            table.phrase code)
      else
        .error (.undefinedCode code expander.table.next)

/-- Takes one code, and gives the indices it adds to the output. -/
def step (expander : Expander) (code : Nat) : Except Error (Expander × List UInt8) :=
  if code = expander.size.clearCode then
    .ok (expander.clear, [])
  else if code = expander.size.endCode then
    .ok (expander.finish, [])
  else if code < expander.size.clearCode ∧ 255 < code then
    .error (.indexOutOfRange code)
  else
    expander.expand code

end Expander
end Lzw
end GifBitmap
