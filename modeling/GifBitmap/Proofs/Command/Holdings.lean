import Mathlib.Logic.Function.Basic
import GifBitmap.Command.Directory
import GifBitmap.Command.Procedure

/-!
# What the operations on a directory lead to

What the command does to a directory shows in what the directory holds: its files by name and the
two streams of bytes.  What was printed to the standard error stream does not count.  `Leads` says
where an operation leads from such a state, so that the parts of the command are put together
without a look at the files or at the messages in between.

Main facts:
* `Leads.bind`, `Leads.andThen`, `Leads.stop`: one operation behind another;
* `leads_openInput`, `leads_createOutput`, `leads_readAll`, `leads_write`, `leads_remove`: what each
  operation of the system leads to, for plain names.
-/

namespace GifBitmap
namespace Command

/-- What a directory holds, apart from what was printed to the standard error stream. -/
@[ext]
structure Holdings where
  content? : String → Option Bytes
  standardInput : Bytes
  standardOutput : Bytes

namespace Holdings

variable (holdings : Holdings)

/-- With another content of a file; `none` is for a file that does not exist. -/
def put (name : String) (content : Option Bytes) : Holdings :=
  { holdings with content? := Function.update holdings.content? name content }

/-- What an input holds: a file, or else the standard input. -/
def input? : Option String → Option Bytes
  | some name => holdings.content? name
  | none => some holdings.standardInput

/-- When an input was read. -/
def consume : Option String → Holdings
  | some _ => holdings
  | none => { holdings with standardInput := [] }

/-- When an output was created and the bytes were written to it: a file, or else the standard
output. -/
def emit (output : Option String) (bytes : Bytes) : Holdings :=
  match output with
  | some name => holdings.put name (some bytes)
  | none => { holdings with standardOutput := holdings.standardOutput ++ bytes }

/-- When an output was removed, if it is a file. -/
def discard : Option String → Holdings
  | some name => holdings.put name none
  | none => holdings

/-- When a log was written, if one is wanted. -/
def record (log : Option String) (bytes : Bytes) : Holdings :=
  match log with
  | some name => holdings.put name (some bytes)
  | none => holdings

@[simp]
theorem content?_put (name : String) (content : Option Bytes) :
    (holdings.put name content).content? = Function.update holdings.content? name content :=
  rfl

@[simp]
theorem put_put (name : String) (first second : Option Bytes) :
    (holdings.put name first).put name second = holdings.put name second := by
  rw [put, put, put, Function.update_idem]

@[simp]
theorem emit_none_nil : holdings.emit none [] = holdings := by
  rw [emit, List.append_nil]

/-- An input holds the same when an output of another name was created. -/
theorem input?_emit_nil
    {input output : Option String}
    (hapart : ∀ name, input = some name → output ≠ some name) :
    (holdings.emit output []).input? input = holdings.input? input := by
  cases output with
  | none => rw [emit_none_nil]
  | some created =>
      cases input with
      | none => rfl
      | some name =>
          have hne : name ≠ created := fun h => hapart name rfl (congrArg some h.symm)
          exact Function.update_of_ne hne _ _

/-- An input can be read before an output is created or behind it. -/
theorem consume_emit (input output : Option String) (bytes : Bytes) :
    (holdings.emit output bytes).consume input = (holdings.consume input).emit output bytes := by
  cases input <;> cases output <;> rfl

theorem content?_consume (input : Option String) :
    (holdings.consume input).content? = holdings.content? := by
  cases input <;> rfl

theorem standardOutput_consume (input : Option String) :
    (holdings.consume input).standardOutput = holdings.standardOutput := by
  cases input <;> rfl

theorem content?_discard (output : Option String) (name : String) :
    (holdings.discard output).content? name =
      if output = some name then none else holdings.content? name := by
  cases output with
  | none => rfl
  | some removed => simp [discard, Function.update_apply, eq_comm]

theorem standardOutput_discard (output : Option String) :
    (holdings.discard output).standardOutput = holdings.standardOutput := by
  cases output <;> rfl

theorem content?_emit (output : Option String) (bytes : Bytes) (name : String) :
    (holdings.emit output bytes).content? name =
      if output = some name then some bytes else holdings.content? name := by
  cases output with
  | none => rfl
  | some written => simp [emit, Function.update_apply, eq_comm]

theorem standardOutput_emit (output : Option String) (bytes : Bytes) :
    (holdings.emit output bytes).standardOutput =
      holdings.standardOutput ++ if output.isSome then [] else bytes := by
  cases output with
  | none => rfl
  | some written => exact (List.append_nil _).symm

theorem content?_record (log : Option String) (bytes : Bytes) (name : String) :
    (holdings.record log bytes).content? name =
      if log = some name then some bytes else holdings.content? name := by
  cases log with
  | none => rfl
  | some written => simp [record, Function.update_apply, eq_comm]

theorem standardOutput_record (log : Option String) (bytes : Bytes) :
    (holdings.record log bytes).standardOutput = holdings.standardOutput := by
  cases log <;> rfl

end Holdings

namespace Directory

def holdings (directory : Directory) : Holdings :=
  ⟨directory.content?, directory.standardInput, directory.standardOutput⟩

variable (directory : Directory)

theorem content?_of_holdings
    {directory : Directory}
    {held : Holdings}
    (h : directory.holdings = held)
    (name : String) :
    directory.content? name = held.content? name :=
  congrFun (congrArg Holdings.content? h) name

theorem holdings_store (name : String) (content : Bytes) :
    (directory.store name content).holdings = directory.holdings.put name (some content) := by
  apply Holdings.ext
  · funext other
    exact (directory.content?_store name other content).trans
      (Function.update_apply directory.content? name (some content) other).symm
  · rfl
  · rfl

theorem holdings_erase (name : String) :
    (directory.erase name).holdings = directory.holdings.put name none := by
  apply Holdings.ext
  · funext other
    exact (directory.content?_erase name other).trans
      (Function.update_apply directory.content? name none other).symm
  · rfl
  · rfl

end Directory

/-- Whether an operation leads from what a directory holds to a result and to what the directory
holds then. -/
def Leads
    {α : Type}
    (operation : StateM Directory α)
    (before : Holdings)
    (result : α)
    (after : Holdings) : Prop :=
  ∀ directory,
    directory.holdings = before →
      ∃ last, operation.run directory = (result, last) ∧ last.holdings = after

section

variable
  {α β : Type}
  {before middle after : Holdings}

theorem leads_pure (value : α) (before : Holdings) :
    Leads (pure value) before value before :=
  fun directory hdirectory => ⟨directory, rfl, hdirectory⟩

theorem Leads.bind
    {operation : StateM Directory α}
    {next : α → StateM Directory β}
    {value : α}
    {result : β}
    (hoperation : Leads operation before value middle)
    (hnext : Leads (next value) middle result after) :
    Leads (operation >>= next) before result after := by
  intro directory hdirectory
  obtain ⟨reached, hreached, hmiddle⟩ := hoperation directory hdirectory
  obtain ⟨last, hlast, hafter⟩ := hnext reached hmiddle
  refine ⟨last, ?_, hafter⟩
  rw [StateT.run_bind, hreached]
  exact hlast

theorem Leads.lift
    {operation : StateM Directory α}
    {value : α}
    (hoperation : Leads operation before value after) :
    Leads (ExceptT.lift operation : Action (StateM Directory) α).run before (.ok value) after := by
  rw [ExceptT.run_lift, ← bind_pure_comp]
  exact hoperation.bind (leads_pure _ _)

/-- A part of the command that ends with a value goes over to the next part. -/
theorem Leads.andThen
    {action : Action (StateM Directory) α}
    {next : α → Action (StateM Directory) β}
    {value : α}
    {result : Except String β}
    (haction : Leads action.run before (.ok value) middle)
    (hnext : Leads (next value).run middle result after) :
    Leads (action >>= next).run before result after := by
  rw [ExceptT.run_bind]
  exact haction.bind hnext

/-- A part of the command that ends with a message ends the command. -/
theorem Leads.stop
    {action : Action (StateM Directory) α}
    {next : α → Action (StateM Directory) β}
    {message : String}
    (haction : Leads action.run before (.error message) after) :
    Leads (action >>= next).run before (.error message) after := by
  rw [ExceptT.run_bind]
  exact haction.bind (leads_pure _ _)

/-- An operation that the system may refuse, as a part of the command. -/
theorem Leads.attempt
    {operation : StateM Directory (Except SystemError α)}
    {result : Except SystemError α}
    (hoperation : Leads operation before result after) :
    Leads (Command.attempt operation).run before (result.mapError SystemError.message) after := by
  refine hoperation.lift.andThen ?_
  cases result with
  | ok value => exact leads_pure _ _
  | error failure => exact leads_pure _ _

def inputHandle : Option String → Directory.Handle
  | some name => .file name
  | none => .standardInput

def outputHandle : Option String → Directory.Handle
  | some name => .file name
  | none => .standardOutput

variable
  {input output : Option String}
  {bytes : Bytes}

theorem leads_report (text : String) (before : Holdings) :
    Leads (Host.report text) before () before :=
  fun _ hdirectory => ⟨_, rfl, hdirectory⟩

theorem leads_printEvents (printer : Printer) (events : List Event) (before : Holdings) :
    Leads (printEvents printer events).run before (.ok ()) before :=
  (leads_report _ before).lift

/-- An input that is there is opened, and a file that is not there cannot be. -/
theorem leads_openInput
    (hname : ∀ name ∈ input, Directory.IsName name)
    (before : Holdings) :
    Leads (attempt (Host.openInput input)).run before
      (if (before.input? input).isSome then .ok (inputHandle input)
      else .error SystemError.notFound.message)
      before := by
  have hopened : Leads (Host.openInput input) before
      (if (before.input? input).isSome then .ok (inputHandle input) else .error .notFound)
      before := by
    rintro directory rfl
    refine ⟨directory, ?_, rfl⟩
    cases input with
    | none => rfl
    | some name => exact congrArg (·, directory) (directory.openFile_of_isName (hname name rfl))
  have hattempt := hopened.attempt
  rw [apply_ite (Except.mapError SystemError.message)] at hattempt
  exact hattempt

/-- An input is read as a whole. -/
theorem leads_readAll (hinput : before.input? input = some bytes) :
    Leads (attempt (Host.readAll (inputHandle input))).run before (.ok bytes)
      (before.consume input) := by
  suffices hoperation :
      Leads (Host.readAll (inputHandle input)) before (.ok bytes)
        (before.consume input) from
    hoperation.attempt
  intro directory hdirectory
  cases input with
  | none =>
      have hbytes : directory.standardInput = bytes := by
        apply Option.some.inj
        rw [← hinput, ← hdirectory]
        rfl
      refine ⟨{ directory with standardInput := [] }, ?_, ?_⟩
      · rw [← hbytes]
        rfl
      · rw [← hdirectory]
        rfl
  | some name =>
      have hcontent := (Directory.content?_of_holdings hdirectory name).trans hinput
      refine ⟨directory, ?_, hdirectory⟩
      change (Except.ok ((directory.content? name).getD []), directory) = _
      rw [hcontent]
      rfl

/-- An output is created without any bytes. -/
theorem leads_createOutput (hname : ∀ name ∈ output, Directory.IsName name) :
    Leads (attempt (Host.createOutput output)).run before (.ok (outputHandle output))
      (before.emit output []) := by
  suffices hoperation :
      Leads (Host.createOutput output) before (.ok (outputHandle output))
        (before.emit output []) from
    hoperation.attempt
  intro directory hdirectory
  cases output with
  | none => exact ⟨directory, rfl, hdirectory.trans before.emit_none_nil.symm⟩
  | some name =>
      refine ⟨directory.store name [], ?_, ?_⟩
      · change directory.createFile name = _
        rw [Directory.createFile, directory.locate_of_isName (hname name rfl)]
        rfl
      · rw [directory.holdings_store, hdirectory]
        rfl

/-- Bytes are written behind those that were written before. -/
theorem leads_write (more : Bytes) :
    Leads (attempt (Host.write (outputHandle output) more)).run (before.emit output bytes) (.ok ())
      (before.emit output (bytes ++ more)) := by
  suffices hoperation :
      Leads (Host.write (outputHandle output) more) (before.emit output bytes) (.ok ())
        (before.emit output (bytes ++ more)) from
    hoperation.attempt
  intro directory hdirectory
  cases output with
  | none =>
      refine ⟨_, rfl, ?_⟩
      have hfiles : directory.content? = before.content? :=
        congrArg Holdings.content? hdirectory
      have hinput : directory.standardInput = before.standardInput :=
        congrArg Holdings.standardInput hdirectory
      have houtput : directory.standardOutput = before.standardOutput ++ bytes :=
        congrArg Holdings.standardOutput hdirectory
      apply Holdings.ext
      · exact hfiles
      · exact hinput
      · change directory.standardOutput ++ more = before.standardOutput ++ (bytes ++ more)
        rw [houtput, List.append_assoc]
  | some name =>
      have hcontent : directory.content? name = some bytes :=
        (Directory.content?_of_holdings hdirectory name).trans (Function.update_self ..)
      refine ⟨directory.store name (bytes ++ more), ?_, ?_⟩
      · change directory.append (.file name) more = _
        rw [Directory.append, hcontent]
        rfl
      · rw [directory.holdings_store, hdirectory]
        exact before.put_put name _ _

/-- A file that is there is removed. -/
theorem leads_remove
    {name : String}
    (hname : Directory.IsName name)
    (hcontent : before.content? name = some bytes) :
    Leads (Host.remove name) before (.ok ()) (before.put name none) := by
  intro directory hdirectory
  have hfound := (Directory.content?_of_holdings hdirectory name).trans hcontent
  refine ⟨directory.erase name, ?_, ?_⟩
  · change directory.removeFile name = _
    rw [Directory.removeFile, directory.openFile_of_isName hname, hfound]
    rfl
  · rw [directory.holdings_erase, hdirectory]

end

end Command
end GifBitmap
