import GifBitmap.Command.Request
import GifBitmap.Pattern
import GifBitmap.Text.Blank

/-!
# Which records are printed

A filter lists rules, each a threshold for the records whose origin begins with a
name; the rule with the longest such name decides, and of several with names of one
length the last.  Without any rule only errors are printed.  A filter may also hold a
pattern that occurs in every printed record.

In its written form the rules stand between commas: a level alone is a rule for every
origin, a name alone lets all of its records through, and `name=level` gives both.
The pattern, if there is one, stands behind a slash.
-/

namespace GifBitmap
namespace Command

def Record.line (record : Record) : String :=
  "[" ++ Text.alignLeft 5 record.level.name ++ " " ++ record.origin ++ "] " ++ record.text ++ "\n"

/-- A threshold for the records whose origin begins with a name. -/
structure LogRule where
  /-- The name; a rule without one is for every origin. -/
  name : Option String
  /-- The least severe level that is printed; none if nothing is. -/
  threshold : Option Level
  deriving Repr, DecidableEq

/-- The rules by which records are printed. -/
structure LogFilter where
  rules : List LogRule
  /-- A pattern that occurs in every printed record. -/
  wanted : Option Pattern
  deriving Repr, DecidableEq

namespace LogRule

def covers (rule : LogRule) (origin : String) : Bool :=
  rule.name.all fun name => name.toList.isPrefixOf origin.toList

/-- How exactly a rule names what it speaks about. -/
def reach (rule : LogRule) : Nat :=
  (rule.name.map String.length).getD 0

/-- The rule that decides when there is one more. -/
def preferred (best : Option LogRule) (rule : LogRule) : Option LogRule :=
  match best with
  | none => some rule
  | some other => if other.reach ≤ rule.reach then some rule else some other

end LogRule

namespace LogFilter

/-- The filter in force when none is chosen: only errors are printed. -/
def standard : LogFilter :=
  ⟨[⟨none, some .error⟩], none⟩

def rulesFor (filter : LogFilter) (origin : String) : List LogRule :=
  filter.rules.filter (·.covers origin)

/-- The rule that decides about an origin: the one with the longest name. -/
def rule? (filter : LogFilter) (origin : String) : Option LogRule :=
  (filter.rulesFor origin).foldl LogRule.preferred none

/-- Whether a record is printed. -/
def admits (filter : LogFilter) (record : Record) : Bool :=
  match filter.rule? record.origin with
  | some ⟨_, some level⟩ =>
      record.level.rank ≤ level.rank && filter.wanted.all (·.occursIn record.text)
  | _ => false

/-- The threshold that a word names, in letters of either case. -/
def threshold? (word : String) : Option (Option Level) :=
  match word.toUpper with
  | "OFF" => some none
  | "ERROR" => some (some .error)
  | "WARN" => some (some .warn)
  | "INFO" => some (some .info)
  | "DEBUG" => some (some .debug)
  | "TRACE" => some (some .trace)
  | _ => none

/-- The rules with one more, which takes the place of one for the same name. -/
def insertRule (rules : List LogRule) (rule : LogRule) : List LogRule :=
  if rules.any (·.name = rule.name) then
    rules.map fun other => if other.name = rule.name then rule else other
  else
    rules ++ [rule]

/-- Reads one rule; what cannot be read is given back. -/
def readRule (text : String) : Except String LogRule :=
  match text.splitOn "=" with
  | [word] =>
      match threshold? word with
      | some threshold => .ok ⟨none, threshold⟩
      | none => .ok ⟨some word, some .trace⟩
  | [name, level] =>
      let word := Text.trimmed level
      if word = "" then
        .ok ⟨some name, some .trace⟩
      else
        match threshold? word with
        | some threshold => .ok ⟨some name, threshold⟩
        | none => .error word
  | _ => .error text

def readRules (text : String) : List LogRule × List String :=
  let parts := ((text.splitOn ",").map Text.trimmed).filter (· ≠ "")
  parts.foldl
    (fun (rules, complaints) part =>
      match readRule part with
      | .ok rule => (insertRule rules rule, complaints)
      | .error fault => (rules, complaints ++ ["invalid logging spec '" ++ fault ++ "'"]))
    ([], [])

/-- Reads a pattern; one that is refused is left out, with a complaint. -/
def readPattern (text : String) : Option Pattern × List String :=
  match Pattern.ofText text with
  | .ok pattern => (some pattern, [])
  | .error refusal => (none, ["invalid regex filter - " ++ refusal.message text])

/-- The filter with some rules, which are those of the standard filter if there is none. -/
def ofRules (rules : List LogRule) (wanted : Option Pattern) : LogFilter :=
  if rules.isEmpty then { standard with wanted } else ⟨rules, wanted⟩

/-- Reads the written form of a filter, with a complaint for each part that cannot be
read. -/
def ofText (text : String) : LogFilter × List String :=
  match text.splitOn "/" with
  | [rules] =>
      let (rules, complaints) := readRules rules
      (ofRules rules none, complaints)
  | [rules, pattern] =>
      let (rules, complaints) := readRules rules
      let (wanted, objections) := readPattern pattern
      (ofRules rules wanted, complaints ++ objections)
  | _ => (standard, ["invalid logging spec '" ++ text ++ "' (too many '/'s)"])

def complaintLine (complaint : String) : String :=
  "warning: " ++ complaint ++ ", ignoring it\n"

/-- What becomes of the records, by the written form of a filter; without one, the standard filter
is in force. -/
def printer (written : Option String) : Printer :=
  let (filter, complaints) :=
    match written with
    | some text => ofText text
    | none => (standard, [])
  { line? := fun record => if filter.admits record then some record.line else none
    preface := String.join (complaints.map complaintLine) }

end LogFilter
end Command
end GifBitmap
