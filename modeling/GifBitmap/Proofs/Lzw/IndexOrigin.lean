import Mathlib.Data.List.DropRight
import GifBitmap.Proofs.Lzw.TableLinks

/-!
# Where indices come from

A code table holds more than may be shown: the clear code and the end code have entries, the
entry of a literal above 255 holds the lowest byte of it, and codes have phrases whether or not
they were taken.  None of this comes to light.  Every index that is added to the output is a
literal that was taken as a code itself, behind the last clear code.

`Decompressor.takenCodes` are the codes that a piece of input is decoded to, each with the
table behind it and the indices that it adds.  `Table.MadeOf` says of a code that its phrase
is made of the literals among some codes; this is kept by an assignment, and `Expander.OfLiterals`
by a code.

Main facts:
* `Table.phrase_eq_map_slots`: a phrase, by the slots of its entries;
* `Expander.OfLiterals.step`, `Decompressor.OfLiterals.decompress`: one code, and a piece of
  input;
* `Decompressor.indices_of_literals`: the indices of all codes of any calls.
-/

namespace GifBitmap
namespace Lzw

namespace CodeSize

/-- The codes behind the last clear code, or all of them if there is none. -/
def sinceClear (size : CodeSize) (codes : List Nat) : List Nat :=
  codes.rtakeWhile fun code => code ≠ size.clearCode

/-- Whether a code is among some others and stands for a single index that is a byte. -/
structure IsLiteralIn (size : CodeSize) (codes : List Nat) (code : Nat) : Prop where
  lt : code < min (2 ^ size.bits) 256
  mem : code ∈ codes

variable {size : CodeSize} {codes : List Nat} {code : Nat}

theorem sinceClear_concat_of_ne
    (h : code ≠ size.clearCode) :
    size.sinceClear (codes ++ [code]) = size.sinceClear codes ++ [code] := by
  rw [sinceClear, List.rtakeWhile_concat, if_pos (by simpa using h), sinceClear]

theorem IsLiteralIn.mono
    {more : List Nat}
    (h : size.IsLiteralIn codes code)
    (hmore : codes ⊆ more) :
    size.IsLiteralIn more code :=
  ⟨h.lt, hmore h.mem⟩

theorem NamesPhrase.ne_clearCode
    (h : size.NamesPhrase code) :
    code ≠ size.clearCode := by
  unfold NamesPhrase firstFree at h
  omega

theorem isLiteralIn_of_namesPhrase
    (hnames : size.NamesPhrase code)
    (hlt : code < size.firstFree)
    (hmem : code ∈ codes) :
    size.IsLiteralIn codes code := by
  rcases hnames with ⟨hclear, hbyte⟩ | hfree
  · unfold clearCode at hclear
    exact ⟨by omega, hmem⟩
  · exact absurd hlt (Nat.not_lt_of_le hfree)

end CodeSize

namespace Table

/-- The slots that the walk from a code over its parents meets, the last one first. -/
def slots (table : Table) (code : Nat) : List Nat :=
  match table.entries[code]? with
  | none => []
  | some entry =>
      match entry.parent with
      | none => [code]
      | some parent => if parent < code then table.slots parent ++ [code] else [code]
termination_by code

/-- The last index of the phrase of a code; zero if there is no such code. -/
def last (table : Table) (code : Nat) : UInt8 :=
  match table.entries[code]? with
  | some entry => entry.last
  | none => 0

variable {table : Table} {size : CodeSize} {codes : List Nat} {code : Nat}

theorem slots_of_root
    {entry : Entry}
    (hentry : table.entries[code]? = some entry)
    (hparent : entry.parent = none) :
    table.slots code = [code] := by
  rw [slots, hentry]
  simp only [hparent]

theorem slots_of_parent
    {entry : Entry}
    {parent : Nat}
    (hentry : table.entries[code]? = some entry)
    (hparent : entry.parent = some parent)
    (holder : parent < code) :
    table.slots code = table.slots parent ++ [code] := by
  rw [slots, hentry]
  simp only [hparent, if_pos holder]

/-- Tables that agree up to a code let its walk meet the same slots. -/
theorem slots_congr
    {first second : Table}
    (h : ∀ slot, slot ≤ code → first.entries[slot]? = second.entries[slot]?) :
    first.slots code = second.slots code := by
  induction code using Nat.strongRecOn with
  | ind code ih =>
      rw [slots, slots, h code (Nat.le_refl code)]
      cases second.entries[code]? with
      | none => rfl
      | some entry =>
          cases hparent : entry.parent with
          | none => simp only [hparent]
          | some parent =>
              simp only [hparent]
              split
              · rename_i holder
                rw [ih parent holder fun slot hslot => h slot (by omega)]
              · rfl

/-- A phrase consists of the last indices of the entries that the walk meets. -/
theorem phrase_eq_map_slots (table : Table) (code : Nat) :
    table.phrase code = (table.slots code).map table.last := by
  induction code using Nat.strongRecOn with
  | ind code ih =>
      cases hentry : table.entries[code]? with
      | none => rw [phrase, phraseBefore, slots, hentry, List.map_nil]
      | some entry =>
          have hlast : table.last code = entry.last := by rw [last, hentry]
          cases hparent : entry.parent with
          | none =>
              rw [phrase_of_literal hentry hparent, slots_of_root hentry hparent,
                List.map_singleton, hlast]
          | some parent =>
              by_cases holder : parent < code
              · rw [phrase_of_parent hentry hparent holder, slots_of_parent hentry hparent holder,
                  List.map_append, List.map_singleton, ih parent holder, hlast]
              · rw [phrase, phraseBefore, slots, hentry]
                simp only [hparent, if_neg holder, List.map_singleton, hlast]

/-- Whether the phrase of a code is made of the literals among some codes: each index is such a
literal, and so is each entry of the first table that the walk meets. -/
structure MadeOf (table : Table) (size : CodeSize) (codes : List Nat) (code : Nat) : Prop where
  index : ∀ {index : UInt8}, index ∈ table.phrase code → size.IsLiteralIn codes index.toNat
  slot : ∀ {slot : Nat}, slot ∈ table.slots code → slot < size.firstFree →
    size.IsLiteralIn codes slot

namespace MadeOf

theorem mono
    {more : List Nat}
    (h : table.MadeOf size codes code)
    (hmore : codes ⊆ more) :
    table.MadeOf size more code where
  index hindex := (h.index hindex).mono hmore
  slot hslot hlt := (h.slot hslot hlt).mono hmore

/-- A literal among the codes is made of itself. -/
theorem of_literal
    (hlinked : table.Linked size)
    (h : size.IsLiteralIn codes code) :
    table.MadeOf size codes code := by
  have hbound := h.lt
  have hclear : code < size.clearCode := by
    unfold CodeSize.clearCode
    omega
  have hfree : code < size.firstFree := by
    unfold CodeSize.firstFree
    omega
  have hentry : table.entries[code]? = some (.literal (UInt8.ofNat code)) := by
    rw [entries_of_reset hlinked.firstFree_le hlinked.reset_eq hfree, entries_initial_of_lt hclear]
  have hvalue : (UInt8.ofNat code).toNat = code := by
    rw [UInt8.toNat_ofNat']
    omega
  constructor
  · intro index hindex
    rw [phrase_of_literal hentry rfl, List.mem_singleton] at hindex
    rw [hindex]
    exact hvalue.symm ▸ h
  · intro slot hslot _
    rw [slots_of_root hentry rfl, List.mem_singleton] at hslot
    exact hslot ▸ h

/-- The first index of a phrase is one of its indices. -/
theorem first
    (h : table.MadeOf size codes code)
    (hlinked : table.Linked size)
    (hcode : code < table.next) :
    size.IsLiteralIn codes (table.first code).toNat :=
  h.index (List.mem_of_head? (hlinked.head_eq hcode))

variable {parent : Nat} {index : UInt8}

/-- An assignment leaves the codes that were assigned before. -/
theorem push_of_lt
    (h : table.MadeOf size codes code)
    (hcode : code < table.next) :
    (table.push parent index).MadeOf size codes code := by
  have hslots : (table.push parent index).slots code = table.slots code :=
    slots_congr fun _ hslot => entries_push_of_lt (Nat.lt_of_le_of_lt hslot hcode)
  constructor
  · intro found hfound
    rw [phrase_push_of_lt hcode] at hfound
    exact h.index hfound
  · intro slot hslot
    rw [hslots] at hslot
    exact h.slot hslot

/-- A new code is made of what its parent and its index are made of. -/
theorem push_next
    (h : table.MadeOf size codes parent)
    (hlinked : table.Linked size)
    (hparent : parent < table.next)
    (hroom : table.next < maxEntries)
    (hindex : size.IsLiteralIn codes index.toNat) :
    (table.push parent index).MadeOf size codes table.next := by
  constructor
  · intro found hfound
    rw [phrase_push_next hroom hparent, List.mem_append, List.mem_singleton] at hfound
    rcases hfound with hold | rfl
    · exact h.index hold
    · exact hindex
  · intro slot hslot hlt
    rw [slots_of_parent (entries_push_next hroom) rfl hparent, List.mem_append,
      List.mem_singleton] at hslot
    rcases hslot with hold | rfl
    · exact (h.push_of_lt hparent).slot hold hlt
    · exact absurd hlt (Nat.not_lt_of_le hlinked.firstFree_le)

end MadeOf
end Table

/-- A code that was taken, with the table behind it and the indices that it added. -/
structure TakenCode where
  code : Nat
  table : Table
  indices : List UInt8
  deriving Repr, DecidableEq

/-- Whether a code adds no index, or those of its phrase, which is made of the literals among
some codes. -/
def TakenCode.MadeOf (taken : TakenCode) (size : CodeSize) (codes : List Nat) : Prop :=
  taken.indices = [] ∨
    (taken.indices = taken.table.phrase taken.code ∧
      taken.table.MadeOf size codes taken.code)

namespace Expander

/-- Whether the phrases that were assigned and the phrase before the next one are made of the
literals among some codes. -/
structure OfLiterals (expander : Expander) (codes : List Nat) : Prop where
  assigned : ∀ {slot : Nat}, expander.size.firstFree ≤ slot → slot < expander.table.next →
    expander.table.MadeOf expander.size codes slot
  previous : ∀ {code : Nat}, expander.previous = some code →
    expander.table.MadeOf expander.size codes code

namespace OfLiterals

variable {expander after : Expander} {codes : List Nat} {code : Nat} {indices : List UInt8}

theorem initial (size : CodeSize) : (initial size).OfLiterals codes where
  assigned := by
    intro slot hfree hslot
    simp only [Expander.initial, Table.next_initial] at hfree hslot
    omega
  previous := by simp [Expander.initial]

/-- Behind a clear code nothing is left of what was assigned. -/
theorem clear (expander : Expander) : expander.clear.OfLiterals codes where
  assigned := by
    intro slot hfree hslot
    simp only [Expander.clear, Table.next_reset] at hfree hslot
    omega
  previous := by simp [Expander.clear]

theorem mono
    {more : List Nat}
    (h : expander.OfLiterals codes)
    (hmore : codes ⊆ more) :
    expander.OfLiterals more where
  assigned hfree hslot := (h.assigned hfree hslot).mono hmore
  previous hprevious := (h.previous hprevious).mono hmore

/-- A code with a phrase is made of literals as soon as it is one of the codes. -/
theorem madeOf
    (h : expander.OfLiterals codes)
    (hsound : expander.Sound)
    (hnames : expander.size.NamesPhrase code)
    (hmem : code ∈ codes)
    (hlt : code < expander.table.next) :
    expander.table.MadeOf expander.size codes code := by
  by_cases hfree : expander.size.firstFree ≤ code
  · exact h.assigned hfree hlt
  · exact .of_literal hsound.linked
      (CodeSize.isLiteralIn_of_namesPhrase hnames (Nat.lt_of_not_le hfree) hmem)

/-- The new phrase is made of that of the code before and the first index of a phrase; both are
made of literals. -/
theorem madeOf_tableAfter
    (h : expander.OfLiterals codes)
    (hsound : expander.Sound)
    {previous : Nat}
    (hprevious : expander.previous = some previous)
    (hnames : expander.size.NamesPhrase code)
    (hmem : code ∈ codes)
    {slot : Nat}
    (hslot : expander.size.firstFree ≤ slot ∨ slot = code)
    (hlt : slot < (expander.tableAfter previous code).next) :
    (expander.tableAfter previous code).MadeOf expander.size codes slot := by
  have hlinked := hsound.linked
  obtain ⟨-, hbefore⟩ := hsound.previous hprevious
  have hparent := h.previous hprevious
  rcases Table.lt_next_of_push hlt with hold | ⟨hroom, rfl⟩
  · refine Table.MadeOf.push_of_lt ?_ hold
    rcases hslot with hfree | rfl
    · exact h.assigned hfree hold
    · exact h.madeOf hsound hnames hmem hold
  · refine hparent.push_next hlinked hbefore hroom ?_
    split
    · rename_i hknown
      exact (h.madeOf hsound hnames hmem hknown).first hlinked hknown
    · exact hparent.first hlinked hbefore

/-- A code is made of the literals since the last clear code, and keeps the expander so. -/
theorem step
    {past : List Nat}
    (h : expander.OfLiterals (expander.size.sinceClear past))
    (hsound : expander.Sound)
    (hmax : code < maxEntries)
    (hstep : expander.step code = .ok (after, indices)) :
    after.OfLiterals (expander.size.sinceClear (past ++ [code])) ∧
      TakenCode.MadeOf ⟨code, after.table, indices⟩ expander.size
        (expander.size.sinceClear (past ++ [code])) := by
  rcases step_cases hstep with
    ⟨rfl, rfl, rfl⟩ | ⟨rfl, rfl, rfl⟩ | ⟨hnames, hprevious, hliteral, rfl, rfl⟩ |
    ⟨hnames, previous, hprevious, hle, rfl, rfl⟩
  · -- nothing is left that would have to be made of anything
    exact ⟨.clear expander, .inl rfl⟩
  · have hend : expander.size.endCode ≠ expander.size.clearCode := Nat.succ_ne_self _
    have hkept := h.mono (List.subset_append_left _ [expander.size.endCode])
    rw [CodeSize.sinceClear_concat_of_ne hend]
    exact ⟨⟨hkept.assigned, hkept.previous⟩, .inl rfl⟩
  · have hkept := h.mono (List.subset_append_left _ [code])
    have hmem : code ∈ expander.size.sinceClear past ++ [code] :=
      List.mem_append_right _ List.mem_cons_self
    have hlt := hsound.linked.lt_next_of_literal hliteral
    have hcode := hkept.madeOf hsound hnames hmem hlt
    rw [CodeSize.sinceClear_concat_of_ne hnames.ne_clearCode]
    refine ⟨⟨hkept.assigned, ?_⟩, .inr ⟨rfl, hcode⟩⟩
    intro found hfound
    obtain rfl := Option.some.inj hfound
    exact hcode
  · have hkept := h.mono (List.subset_append_left _ [code])
    have hmem : code ∈ expander.size.sinceClear past ++ [code] :=
      List.mem_append_right _ List.mem_cons_self
    have hcode := hkept.madeOf_tableAfter hsound hprevious hnames hmem (.inr rfl)
      (Sound.lt_next_tableAfter previous hle hmax)
    rw [CodeSize.sinceClear_concat_of_ne hnames.ne_clearCode]
    refine ⟨⟨fun hfree => ?_, ?_⟩, .inr ⟨rfl, hcode⟩⟩
    · exact hkept.madeOf_tableAfter hsound hprevious hnames hmem (.inl hfree)
    · intro found hfound
      obtain rfl := Option.some.inj hfound
      exact hcode

end OfLiterals
end Expander

/-- Whether each of some codes is made of the literals since the last clear code, where `past`
are the codes in front of them. -/
inductive AllMadeOf (size : CodeSize) : List Nat → List TakenCode → Prop
  | nil (past : List Nat) : AllMadeOf size past []
  | cons
      {past : List Nat}
      {taken : TakenCode}
      {rest : List TakenCode}
      (hfirst : taken.MadeOf size (size.sinceClear (past ++ [taken.code])))
      (hrest : AllMadeOf size (past ++ [taken.code]) rest) :
      AllMadeOf size past (taken :: rest)

namespace AllMadeOf

variable {size : CodeSize} {past : List Nat} {first second : List TakenCode}

theorem append
    (hfirst : AllMadeOf size past first)
    (hsecond : AllMadeOf size (past ++ first.map TakenCode.code) second) :
    AllMadeOf size past (first ++ second) := by
  induction hfirst with
  | nil past =>
      rw [List.map_nil, List.append_nil] at hsecond
      exact hsecond
  | cons hfirst _ ih =>
      rw [List.map_cons, List.append_cons] at hsecond
      exact .cons hfirst (ih hsecond)

/-- Any one of the codes, by those in front of it. -/
theorem madeOf
    {front back : List TakenCode}
    {taken : TakenCode}
    (h : AllMadeOf size past (front ++ taken :: back)) :
    taken.MadeOf size (size.sinceClear (past ++ (front ++ [taken]).map TakenCode.code)) := by
  induction front generalizing past with
  | nil =>
      cases h with
      | cons hfirst _ => exact hfirst
  | cons head front ih =>
      cases h with
      | cons _ hrest =>
          rw [List.cons_append, List.map_cons, List.append_cons]
          exact ih hrest

end AllMadeOf

namespace Decompressor

/-- The codes that a piece of input is decoded to, up to the end code or a code that fails. -/
def takenCodes (decompressor : Decompressor) (bytes : Bytes) : List TakenCode :=
  if decompressor.isDone then
    []
  else
    match _hcode : decompressor.pending.unpack decompressor.expander.width bytes with
    | (none, _, _) => []
    | (some code, pending, rest) =>
        match decompressor.expander.step code with
        | .error _ => []
        | .ok (expander, indices) =>
            ⟨code, expander.table, indices⟩ :: takenCodes ⟨expander, pending⟩ rest
termination_by decompressor.pending.size + 8 * bytes.length
decreasing_by
  obtain ⟨hsize, -⟩ := BitBuffer.unpack_some_size _hcode
  have hwidth := decompressor.expander.width.pos
  omega

section TakenCodes

variable {decompressor : Decompressor} {bytes left : Bytes} {code : Nat} {pending : BitBuffer}

theorem takenCodes_of_isDone
    (hdone : decompressor.isDone = true) :
    decompressor.takenCodes bytes = [] := by
  rw [takenCodes, if_pos hdone]

theorem takenCodes_of_none
    (hopen : ¬decompressor.isDone = true)
    (hunpack : decompressor.pending.unpack decompressor.expander.width bytes =
      (none, pending, left)) :
    decompressor.takenCodes bytes = [] := by
  rw [takenCodes, if_neg hopen, hunpack]

theorem takenCodes_of_error
    (hopen : ¬decompressor.isDone = true)
    (hunpack : decompressor.pending.unpack decompressor.expander.width bytes =
      (some code, pending, left))
    {cause : Error}
    (hstep : decompressor.expander.step code = .error cause) :
    decompressor.takenCodes bytes = [] := by
  rw [takenCodes, if_neg hopen, hunpack]
  simp only [hstep]

theorem takenCodes_of_ok
    (hopen : ¬decompressor.isDone = true)
    (hunpack : decompressor.pending.unpack decompressor.expander.width bytes =
      (some code, pending, left))
    {expander : Expander}
    {indices : List UInt8}
    (hstep : decompressor.expander.step code = .ok (expander, indices)) :
    decompressor.takenCodes bytes =
      ⟨code, expander.table, indices⟩ ::
        (⟨expander, pending⟩ : Decompressor).takenCodes left := by
  rw [takenCodes, if_neg hopen, hunpack]
  simp only [hstep]

end TakenCodes

/-- A piece of input adds the indices of its codes, and nothing else. -/
theorem buffer_decompress
    (decompressor : Decompressor)
    (bytes : Bytes)
    (buffer : Array UInt8) :
    (decompressor.decompress bytes buffer).buffer =
      buffer ++ (decompressor.takenCodes bytes).flatMap TakenCode.indices := by
  fun_induction decompress decompressor bytes buffer with
  | case1 decompressor bytes buffer hdone =>
      rw [takenCodes_of_isDone hdone, List.flatMap_nil, Array.appendList_nil]
  | case2 decompressor bytes buffer hdone pending left hunpack =>
      rw [takenCodes_of_none hdone hunpack, List.flatMap_nil, Array.appendList_nil]
  | case3 decompressor bytes buffer hdone code pending left hunpack cause hstep =>
      rw [takenCodes_of_error hdone hunpack hstep, List.flatMap_nil, Array.appendList_nil]
  | case4 decompressor bytes buffer hdone code pending left hunpack expander indices hstep ih =>
      rw [ih, takenCodes_of_ok hdone hunpack hstep, List.flatMap_cons]
      apply Array.ext'
      simp only [Array.toList_appendList, List.append_assoc]

/-- Whether a decompressor is sound, and its expander holds phrases of the literals since the
last clear code only. -/
structure OfLiterals (decompressor : Decompressor) (size : CodeSize) (past : List Nat) : Prop where
  sound : decompressor.Sound
  size_eq : decompressor.expander.size = size
  expander : decompressor.expander.OfLiterals (size.sinceClear past)

theorem OfLiterals.initial (size : CodeSize) : (initial size).OfLiterals size [] :=
  ⟨.initial size, rfl, .initial size⟩

/-- All codes of a piece of input are made of literals, and they keep the decompressor so. -/
theorem OfLiterals.decompress
    {size : CodeSize}
    {decompressor : Decompressor}
    {past : List Nat}
    (h : decompressor.OfLiterals size past)
    (bytes : Bytes)
    (buffer : Array UInt8) :
    AllMadeOf size past (decompressor.takenCodes bytes) ∧
      (decompressor.decompress bytes buffer).decompressor.OfLiterals size
        (past ++ (decompressor.takenCodes bytes).map TakenCode.code) := by
  fun_induction Decompressor.decompress decompressor bytes buffer generalizing past with
  | case1 decompressor bytes buffer hdone =>
      rw [takenCodes_of_isDone hdone, List.map_nil, List.append_nil]
      exact ⟨.nil past, h⟩
  | case2 decompressor bytes buffer hdone pending left hunpack =>
      rw [takenCodes_of_none hdone hunpack, List.map_nil, List.append_nil]
      exact ⟨.nil past, h.sound.unpack hunpack, h.size_eq, h.expander⟩
  | case3 decompressor bytes buffer hdone code pending left hunpack cause hstep =>
      rw [takenCodes_of_error hdone hunpack hstep, List.map_nil, List.append_nil]
      exact ⟨.nil past, h.sound.unpack hunpack, h.size_eq, h.expander⟩
  | case4 decompressor bytes buffer hdone code pending left hunpack expander indices hstep ih =>
      obtain ⟨hsound, rfl, hliterals⟩ := h
      obtain ⟨hafter, hsame⟩ := hsound.code hunpack hstep
      obtain ⟨hkept, htaken⟩ :=
        hliterals.step hsound.expander (hsound.lt_maxEntries hunpack) hstep
      obtain ⟨hrest, hend⟩ := ih ⟨hafter, hsame, hkept⟩
      rw [takenCodes_of_ok hdone hunpack hstep, List.map_cons, List.append_cons]
      exact ⟨.cons htaken hrest, hend⟩

/-- The state behind calls with a piece of input each, whatever became of them, and with a
buffer of its own for each. -/
def afterCalls (decompressor : Decompressor) : List (Bytes × Array UInt8) → Decompressor
  | [] => decompressor
  | (bytes, buffer) :: calls => (decompressor.decompress bytes buffer).decompressor.afterCalls calls

def takenCodesOfCalls (decompressor : Decompressor) : List (Bytes × Array UInt8) → List TakenCode
  | [] => []
  | (bytes, buffer) :: calls =>
      decompressor.takenCodes bytes ++
        (decompressor.decompress bytes buffer).decompressor.takenCodesOfCalls calls

theorem OfLiterals.allMadeOf
    {size : CodeSize}
    {decompressor : Decompressor}
    {past : List Nat}
    (h : decompressor.OfLiterals size past)
    (calls : List (Bytes × Array UInt8)) :
    AllMadeOf size past (decompressor.takenCodesOfCalls calls) := by
  induction calls generalizing decompressor past with
  | nil => exact .nil past
  | cons call calls ih =>
      obtain ⟨hfirst, hafter⟩ := h.decompress call.1 call.2
      exact hfirst.append (ih hafter)

theorem takenCodesOfCalls_append
    (decompressor : Decompressor)
    (first second : List (Bytes × Array UInt8)) :
    decompressor.takenCodesOfCalls (first ++ second) =
      decompressor.takenCodesOfCalls first ++
        (decompressor.afterCalls first).takenCodesOfCalls second := by
  induction first generalizing decompressor with
  | nil => rfl
  | cons call first ih =>
      rw [List.cons_append, takenCodesOfCalls, takenCodesOfCalls, ih, List.append_assoc, afterCalls]

/-- Each index that any call adds is a literal below 256 that was taken as a code itself, behind
the last clear code and not behind the code that adds it.  So are the entries of the first
table that the walk over the phrase meets; those of the clear code and the end code are not
met at all. -/
theorem indices_of_literals
    (size : CodeSize)
    (calls : List (Bytes × Array UInt8)) :
    let start := initial size
    (∀ front bytes buffer back,
      calls = front ++ (bytes, buffer) :: back →
        let before := start.afterCalls front
        let outcome := before.decompress bytes buffer
        outcome.buffer = buffer ++ (before.takenCodes bytes).flatMap TakenCode.indices ∧
          start.takenCodesOfCalls calls =
            start.takenCodesOfCalls front ++
              (before.takenCodes bytes ++ outcome.decompressor.takenCodesOfCalls back)) ∧
      ∀ front taken back,
        start.takenCodesOfCalls calls = front ++ taken :: back →
          let codes := size.sinceClear ((front ++ [taken]).map TakenCode.code)
          (∀ index ∈ taken.indices, size.IsLiteralIn codes index.toNat) ∧
            (taken.indices ≠ [] →
              taken.indices = (taken.table.slots taken.code).map taken.table.last ∧
                ∀ slot ∈ taken.table.slots taken.code,
                  slot ≠ size.clearCode ∧
                    slot ≠ size.endCode ∧
                    (slot < size.clearCode → size.IsLiteralIn codes slot)) := by
  intro start
  constructor
  · rintro front bytes buffer back rfl before outcome
    exact ⟨before.buffer_decompress bytes buffer, start.takenCodesOfCalls_append front _⟩
  · intro front taken back hcodes codes
    have hall := (OfLiterals.initial size).allMadeOf calls
    have hsplit : AllMadeOf size [] (front ++ taken :: back) := hcodes ▸ hall
    rcases hsplit.madeOf with hnone | ⟨hphrase, hmade⟩
    · rw [hnone]
      exact ⟨by simp, fun hsome => absurd rfl hsome⟩
    · refine ⟨fun index hindex => hmade.index (hphrase ▸ hindex), fun _ => ⟨?_, ?_⟩⟩
      · rw [hphrase, Table.phrase_eq_map_slots]
      · intro slot hslot
        have hliteral := hmade.slot hslot
        have hbelow (hfree : slot < size.firstFree) : slot < size.clearCode :=
          Nat.lt_of_lt_of_le (hliteral hfree).lt (Nat.min_le_left _ _)
        unfold CodeSize.firstFree at hliteral hbelow
        unfold CodeSize.endCode
        exact ⟨by omega, by omega, fun hlt => hliteral (by omega)⟩

/-- A code that was assigned before a clear code and again behind it, with a code in between
that fails. -/
theorem indices_of_literals_behind_clear_code :
    let size : CodeSize := ⟨2, by decide, by decide⟩
    let taken := (initial size).takenCodesOfCalls [([0x33, 0x2F], #[]), ([0x17], #[3, 3, 3])]
    taken.map TakenCode.code = [3, 6, 4, 2, 6, 5] ∧
      taken.map TakenCode.indices = [[3], [3, 3], [], [2], [2, 2], []] ∧
      size.sinceClear [3, 6, 4, 2, 6] = [2, 6] ∧
      size.IsLiteralIn [2, 6] 2 := by
  intro size taken
  have hcodes : taken.map TakenCode.code = [3, 6, 4, 2, 6, 5] := by
    unfold taken size
    cbv
  have hindices : taken.map TakenCode.indices = [[3], [3, 3], [], [2], [2, 2], []] := by
    unfold taken size
    cbv
  have hclear : size.sinceClear [3, 6, 4, 2, 6] = [2, 6] := by decide
  have hlength : 4 < taken.length := by
    rw [← List.length_map TakenCode.code, hcodes]
    decide
  have hsplit : taken = taken.take 4 ++ taken[4] :: taken.drop 5 := by
    rw [← List.drop_eq_getElem_cons hlength, List.take_append_drop]
  have hfront : (taken.take 4 ++ [taken[4]]).map TakenCode.code = [3, 6, 4, 2, 6] := by
    rw [List.take_append_getElem, List.map_take, hcodes]
    rfl
  have hlast : taken[4].indices = [2, 2] := by
    have hsome : (taken.map TakenCode.indices)[4]? = some [2, 2] := by
      rw [hindices]
      rfl
    rw [List.getElem?_map, List.getElem?_eq_getElem hlength] at hsome
    exact Option.some.inj hsome
  obtain ⟨hliteral, -⟩ :=
    (indices_of_literals size [([0x33, 0x2F], #[]), ([0x17], #[3, 3, 3])]).2 _ _ _ hsplit
  rw [hfront, hclear, hlast] at hliteral
  exact ⟨hcodes, hindices, hclear, hliteral 2 List.mem_cons_self⟩

end Decompressor

end Lzw
end GifBitmap
