import GifBitmap.Pattern

/-!
# Where a pattern matches

`Expression.Matches` says what an expression matches, part by part, for two positions of a text.
The matcher goes through a text for all positions at once: it sends a set of positions to all those
at which a match can end (`sends_ends`).  A match never goes back, so a repetition that makes as
many steps as there are characters has made all that make a difference.

The main result is `Pattern.occursIn_iff`: a pattern occurs in a text exactly if it matches between
two of its positions.
-/

namespace GifBitmap
namespace Pattern

/-- Whether a number of steps leads from one position to another. -/
def Steps (step : Nat → Nat → Prop) : Nat → Nat → Nat → Prop
  | 0, start, stop => start = stop
  | count + 1, start, stop => ∃ middle, step start middle ∧ Steps step count middle stop

/-- Whether an expression matches what stands between two positions of a text. -/
def Expression.Matches (text : List Char) : Expression → Nat → Nat → Prop
  | nothing, start, stop => start = stop
  | one set, start, stop =>
      start + 1 = stop ∧ ∃ character, text[start]? = some character ∧ set.contains character = true
  | .landmark place, start, stop =>
      start = stop ∧
        start ≤ text.length ∧
        place.holds (text.take start).getLast? (text.drop start).head? = true
  | both first second, start, stop =>
      ∃ middle, first.Matches text start middle ∧ second.Matches text middle stop
  | either first second, start, stop =>
      first.Matches text start stop ∨ second.Matches text start stop
  | captured body, start, stop => body.Matches text start stop
  | repeated least most body, start, stop =>
      ∃ count,
        least ≤ count ∧
          (∀ bound, most = some bound → count ≤ max least bound) ∧
          Steps (body.Matches text) count start stop

section

variable
  {step : Nat → Nat → Prop}
  {count start stop : Nat}

theorem steps_add (first second : Nat) :
    Steps step (first + second) start stop ↔
      ∃ middle, Steps step first start middle ∧ Steps step second middle stop := by
  induction first generalizing start with
  | zero =>
      rw [Nat.zero_add]
      constructor
      · intro h
        exact ⟨start, rfl, h⟩
      · rintro ⟨middle, rfl, h⟩
        exact h
  | succ first ih =>
      rw [Nat.succ_add]
      constructor
      · rintro ⟨next, hnext, h⟩
        obtain ⟨middle, hfirst, hsecond⟩ := ih.mp h
        exact ⟨middle, ⟨next, hnext, hfirst⟩, hsecond⟩
      · rintro ⟨middle, ⟨next, hnext, hfirst⟩, hsecond⟩
        exact ⟨next, hnext, ih.mpr ⟨middle, hfirst, hsecond⟩⟩

/-- Steps some of which may be left out. -/
theorem steps_or_stay :
    Steps (fun start stop => start = stop ∨ step start stop) count start stop ↔
      ∃ fewer, fewer ≤ count ∧ Steps step fewer start stop := by
  induction count generalizing start with
  | zero =>
      constructor
      · intro h
        exact ⟨0, Nat.le_refl 0, h⟩
      · rintro ⟨fewer, hfewer, h⟩
        obtain rfl := Nat.le_zero.mp hfewer
        exact h
  | succ count ih =>
      constructor
      · rintro ⟨middle, hfirst, h⟩
        obtain ⟨fewer, hfewer, hsteps⟩ := ih.mp h
        rcases hfirst with rfl | hstep
        · exact ⟨fewer, Nat.le_succ_of_le hfewer, hsteps⟩
        · exact ⟨fewer + 1, Nat.succ_le_succ hfewer, middle, hstep, hsteps⟩
      · rintro ⟨fewer, hfewer, h⟩
        cases fewer with
        | zero => exact ⟨start, .inl rfl, ih.mpr ⟨0, Nat.zero_le _, h⟩⟩
        | succ fewer =>
            obtain ⟨middle, hstep, hsteps⟩ := h
            exact ⟨middle, .inr hstep, ih.mpr ⟨fewer, Nat.le_of_succ_le_succ hfewer, hsteps⟩⟩

/-- Of steps that never go back, those that stay can be left out. -/
theorem Steps.shorten
    (hforward : ∀ {start stop}, step start stop → start ≤ stop)
    (h : Steps step count start stop) :
    start ≤ stop ∧ ∃ fewer, fewer ≤ stop - start ∧ Steps step fewer start stop := by
  induction count generalizing start with
  | zero =>
      obtain rfl : start = stop := h
      exact ⟨Nat.le_refl _, 0, Nat.zero_le _, rfl⟩
  | succ count ih =>
      obtain ⟨middle, hstep, hsteps⟩ := h
      obtain ⟨hmiddle, fewer, hfewer, hrest⟩ := ih hsteps
      have hstart := hforward hstep
      refine ⟨Nat.le_trans hstart hmiddle, ?_⟩
      rcases Nat.eq_or_lt_of_le hstart with rfl | hlt
      · exact ⟨fewer, hfewer, hrest⟩
      · exact ⟨fewer + 1, by omega, middle, hstep, hrest⟩

end

/-- Whether a map of sets sends the positions from which steps start to those at which they
stop. -/
def Sends (advance : Nat → Nat) (step : Nat → Nat → Prop) : Prop :=
  ∀ positions stop,
    (advance positions).testBit stop = true ↔
      ∃ start, positions.testBit start = true ∧ step start stop

namespace Sends

variable
  {advance further : Nat → Nat}
  {step later : Nat → Nat → Prop}

theorem stay : Sends (fun positions => positions) Eq := by
  intro positions stop
  constructor
  · intro h
    exact ⟨stop, h, rfl⟩
  · rintro ⟨start, h, rfl⟩
    exact h

theorem either (hfirst : Sends advance step) (hsecond : Sends further later) :
    Sends (fun positions => advance positions ||| further positions)
      (fun start stop => step start stop ∨ later start stop) := by
  intro positions stop
  rw [Nat.testBit_or, Bool.or_eq_true, hfirst positions stop, hsecond positions stop]
  simp only [and_or_left, exists_or]

theorem both (hfirst : Sends advance step) (hsecond : Sends further later) :
    Sends (fun positions => further (advance positions))
      (fun start stop => ∃ middle, step start middle ∧ later middle stop) := by
  intro positions stop
  rw [hsecond]
  constructor
  · rintro ⟨middle, hmiddle, hlater⟩
    obtain ⟨start, hstart, hstep⟩ := (hfirst positions middle).mp hmiddle
    exact ⟨start, hstart, middle, hstep, hlater⟩
  · rintro ⟨start, hstart, middle, hstep, hlater⟩
    exact ⟨middle, (hfirst positions middle).mpr ⟨start, hstart, hstep⟩, hlater⟩

/-- A step that is made again and again, also if it stops early. -/
theorem repeatedly (h : Sends advance step) (count : Nat) :
    Sends (Pattern.repeatedly advance count) (Steps step count) := by
  induction count with
  | zero => exact stay
  | succ count ih =>
      intro positions stop
      rw [repeatedly_succ]
      exact h.both ih positions stop

end Sends

/-- The characters around a position. -/
theorem getElem?_gaps
    (before : Option Char)
    (text : List Char)
    (place : Nat) :
    (gaps before text)[place]? =
      if place ≤ text.length then
        some ((text.take place).getLast?.or before, (text.drop place).head?)
      else
        none := by
  induction text generalizing before place with
  | nil =>
      cases place with
      | zero => rfl
      | succ place => rfl
  | cons character text ih =>
      cases place with
      | zero => rfl
      | succ place =>
          rw [gaps, List.getElem?_cons_succ, ih, List.take_succ_cons, List.drop_succ_cons,
            List.getLast?_cons, List.length_cons]
          simp only [Nat.succ_le_succ_iff]
          cases (text.take place).getLast? with
          | none => rfl
          | some last => rfl

namespace Expression

variable
  {text : List Char}
  {start stop : Nat}

/-- A match never goes back, and does not go beyond the end of a text. -/
theorem Matches.le_and_le
    {expression : Expression}
    (h : expression.Matches text start stop) :
    start ≤ stop ∧ stop ≤ max start text.length := by
  induction expression generalizing start stop with
  | nothing =>
      obtain rfl : start = stop := h
      exact ⟨Nat.le_refl _, Nat.le_max_left _ _⟩
  | one set =>
      obtain ⟨rfl, character, hcharacter, -⟩ := h
      obtain ⟨hstart, -⟩ := List.getElem?_eq_some_iff.mp hcharacter
      exact ⟨Nat.le_succ _, Nat.le_trans hstart (Nat.le_max_right _ _)⟩
  | landmark place =>
      obtain ⟨rfl, -⟩ := h
      exact ⟨Nat.le_refl _, Nat.le_max_left _ _⟩
  | both first second ihFirst ihSecond =>
      obtain ⟨middle, hfirst, hsecond⟩ := h
      have hstart := ihFirst hfirst
      have hstop := ihSecond hsecond
      omega
  | either first second ihFirst ihSecond => exact h.elim ihFirst ihSecond
  | captured body ih => exact ih h
  | repeated least most body ih =>
      obtain ⟨count, -, -, hsteps⟩ := h
      clear least
      induction count generalizing start with
      | zero =>
          obtain rfl : start = stop := hsteps
          exact ⟨Nat.le_refl _, Nat.le_max_left _ _⟩
      | succ count ihCount =>
          obtain ⟨middle, hstep, hrest⟩ := hsteps
          have hstart := ih hstep
          have hstop := ihCount hrest
          omega

/-- A repetition of at least `least` steps: as many first, and then some more. -/
theorem matches_repeated_iff
    {least : Nat}
    {most : Option Nat}
    {body : Expression} :
    (repeated least most body).Matches text start stop ↔
      ∃ middle,
        Steps (body.Matches text) least start middle ∧
          ∃ more,
            more ≤ most.elim (text.length + 1) (· - least) ∧
              Steps (body.Matches text) more middle stop := by
  constructor
  · rintro ⟨count, hleast, hmost, hsteps⟩
    obtain ⟨more, rfl⟩ := Nat.exists_eq_add_of_le hleast
    obtain ⟨middle, hfirst, hmore⟩ := (steps_add least more).mp hsteps
    refine ⟨middle, hfirst, ?_⟩
    cases most with
    | some bound =>
        have hbound := hmost bound rfl
        exact ⟨more, by simp only [Option.elim_some]; omega, hmore⟩
    | none =>
        -- Steps that stay where they are can be left out.
        obtain ⟨-, fewer, hfewer, hshort⟩ := hmore.shorten fun h => h.le_and_le.1
        have hlong : (repeated 0 none body).Matches text middle stop :=
          ⟨more, Nat.zero_le _, nofun, hmore⟩
        have hstop := hlong.le_and_le.2
        exact ⟨fewer, by simp only [Option.elim_none]; omega, hshort⟩
  · rintro ⟨middle, hfirst, more, hmore, hrest⟩
    have hsteps := (steps_add least more).mpr ⟨middle, hfirst, hrest⟩
    refine ⟨least + more, Nat.le_add_right _ _, ?_, hsteps⟩
    rintro bound rfl
    simp only [Option.elim_some] at hmore
    omega

/-- The matcher finds all positions at which a match can end. -/
theorem sends_ends (text : List Char) (expression : Expression) :
    Sends (expression.ends text) (expression.Matches text) := by
  induction expression with
  | nothing => exact .stay
  | one set =>
      intro positions stop
      rw [ends, Nat.testBit_shiftLeft, Nat.testBit_and, testBit_marks]
      simp only [Bool.and_eq_true, decide_eq_true_iff, Option.any_eq_true]
      constructor
      · rintro ⟨hpositive, hstart, hcharacter⟩
        exact ⟨stop - 1, hstart, Nat.sub_add_cancel hpositive, hcharacter⟩
      · rintro ⟨start, hstart, rfl, hcharacter⟩
        exact ⟨Nat.succ_pos _, hstart, hcharacter⟩
  | landmark place =>
      intro positions stop
      rw [ends, Nat.testBit_and, testBit_marks, getElem?_gaps]
      simp only [Matches, Bool.and_eq_true]
      constructor
      · rintro ⟨hstop, hholds⟩
        split at hholds
        · rename_i hle
          rw [Option.or_none] at hholds
          exact ⟨stop, hstop, rfl, hle, hholds⟩
        · exact absurd hholds nofun
      · rintro ⟨start, hstart, rfl, hle, hholds⟩
        rw [if_pos hle, Option.or_none]
        exact ⟨hstart, hholds⟩
  | both first second ihFirst ihSecond => exact ihFirst.both ihSecond
  | either first second ihFirst ihSecond => exact ihFirst.either ihSecond
  | captured body ih => exact ih
  | repeated least most body ih =>
      have hmore := (Sends.stay.either ih).repeatedly (most.elim (text.length + 1) (· - least))
      have hboth := (ih.repeatedly least).both hmore
      simp only [steps_or_stay, ← matches_repeated_iff] at hboth
      cases most with
      | none => exact hboth
      | some bound => exact hboth

end Expression

/-- A pattern occurs in a text exactly if it matches between two of its positions. -/
theorem occursIn_iff (pattern : Pattern) (text : String) :
    pattern.occursIn text = true ↔
      ∃ start stop,
        start ≤ text.toList.length ∧ pattern.expression.Matches text.toList start stop := by
  have hsends := Expression.sends_ends text.toList pattern.expression
  have hall : ∀ place,
      (2 ^ (text.toList.length + 1) - 1).testBit place = true ↔ place ≤ text.toList.length := by
    intro place
    rw [Nat.testBit_two_pow_sub_one, decide_eq_true_iff, Nat.lt_succ_iff]
  rw [occursIn, Expression.occursIn, decide_eq_true_iff]
  constructor
  · intro hne
    obtain ⟨stop, hstop⟩ := Nat.exists_testBit_of_ne_zero hne
    obtain ⟨start, hstart, hmatches⟩ := (hsends _ stop).mp hstop
    exact ⟨start, stop, (hall start).mp hstart, hmatches⟩
  · rintro ⟨start, stop, hstart, hmatches⟩ hzero
    have hstop := (hsends _ stop).mpr ⟨start, (hall start).mpr hstart, hmatches⟩
    rw [hzero, Nat.zero_testBit] at hstop
    exact absurd hstop nofun

end Pattern
end GifBitmap
