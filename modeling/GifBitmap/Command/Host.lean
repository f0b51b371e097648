import GifBitmap.Bytes

/-!
# What the command needs of a system

The command opens, creates, reads, writes and removes files, and prints to the
standard error stream.  `Host` lists these operations for any monad, so that the same
command runs on a real system and on a directory that is a plain value.
-/

namespace GifBitmap
namespace Command

/-- The reasons for which a system refuses an operation on a file. -/
inductive SystemError
  | notPermitted
  | notFound
  | accessDenied
  | notADirectory
  | isADirectory
  | noSpace
  /-- Any other reason, by its number and its name. -/
  | other (code : Nat) (name : String)
  deriving Repr, DecidableEq

namespace SystemError

def code : SystemError → Nat
  | notPermitted => 1
  | notFound => 2
  | accessDenied => 13
  | notADirectory => 20
  | isADirectory => 21
  | noSpace => 28
  | other code _ => code

def name : SystemError → String
  | notPermitted => "Operation not permitted"
  | notFound => "No such file or directory"
  | accessDenied => "Permission denied"
  | notADirectory => "Not a directory"
  | isADirectory => "Is a directory"
  | noSpace => "No space left on device"
  | other _ name => name

/-- The reason with a number; `name` is what the system calls it, where it is not one of
those told apart here. -/
def ofCode (code : Nat) (name : String) : SystemError :=
  match code with
  | 1 => notPermitted
  | 2 => notFound
  | 13 => accessDenied
  | 20 => notADirectory
  | 21 => isADirectory
  | 28 => noSpace
  | _ => other code name

/-- A reason is found again by its number and name. -/
theorem ofCode_code (failure : SystemError) (h : ∀ code name, failure ≠ other code name) :
    ofCode failure.code failure.name = failure := by
  cases failure with
  | other code name => exact absurd rfl (h code name)
  | _ => rfl

def message (failure : SystemError) : String :=
  failure.name ++ " (os error " ++ toString failure.code ++ ")"

end SystemError

/-- The operations of a system on which the command runs. -/
class Host (m : Type → Type) where
  /-- A file or standard stream that is open. -/
  Handle : Type
  /-- Opens a file for reading, or the standard input. -/
  openInput : Option String → m (Except SystemError Handle)
  /-- Creates an empty file, or takes the standard output. -/
  createOutput : Option String → m (Except SystemError Handle)
  /-- Reads all that an open file holds. -/
  readAll : Handle → m (Except SystemError Bytes)
  /-- Writes behind what was written before. -/
  write : Handle → Bytes → m (Except SystemError Unit)
  /-- Removes a file. -/
  remove : String → m (Except SystemError Unit)
  /-- Prints to the standard error stream. -/
  report : String → m Unit

end Command
end GifBitmap
