import GifBitmap.Command.Host

/-!
# A directory as a plain value

A `Directory` holds the files that the command can reach, together with the standard
streams.  It has no directories within it.  One path names the standard output; that
path can be written to but not removed.

Main facts:
* `content?_erase`, `content?_store`: what each file holds afterwards;
* `locate_of_isName`, `openFile_of_isName`: a plain name leads to the file of that name.
-/

namespace GifBitmap
namespace Command

/-- Files by name, and the standard streams. -/
structure Directory where
  files : List (String × Bytes)
  standardInput : Bytes
  standardOutput : Bytes
  standardError : String
  deriving Repr, DecidableEq

namespace Directory

/-- What is open: a standard stream, a file, or the directory itself. -/
inductive Handle
  | standardInput
  | standardOutput
  | file (name : String)
  | whole
  deriving Repr, DecidableEq

/-- The path that names the standard output. -/
def outputPath : String :=
  "/proc/self/fd/1"

def content? (directory : Directory) (name : String) : Option Bytes :=
  directory.files.lookup name

def erase (directory : Directory) (name : String) : Directory :=
  { directory with files := directory.files.filter fun file => file.1 ≠ name }

def store (directory : Directory) (name : String) (content : Bytes) : Directory :=
  { directory with files := (directory.erase name).files ++ [(name, content)] }

private theorem lookup_filter_ne
    (files : List (String × Bytes))
    (name other : String) :
    (files.filter fun file => file.1 ≠ name).lookup other =
      if other = name then none else files.lookup other := by
  induction files with
  | nil => simp
  | cons file files ih =>
      obtain ⟨found, content⟩ := file
      by_cases hfound : found = name
      · subst hfound
        rw [List.filter_cons_of_neg (by simp), ih, List.lookup_cons]
        split
        · rfl
        · rename_i hother
          rw [beq_false_of_ne hother]
      · rw [List.filter_cons_of_pos (by simpa using hfound), List.lookup_cons, List.lookup_cons,
          ih]
        by_cases hother : other = found
        · subst hother
          simp [hfound]
        · rw [beq_false_of_ne hother]

/-- A file that was removed is gone, and the others are as before. -/
theorem content?_erase (directory : Directory) (name other : String) :
    (directory.erase name).content? other =
      if other = name then none else directory.content? other :=
  lookup_filter_ne directory.files name other

/-- A file that was stored holds what was stored, and the others are as before. -/
theorem content?_store
    (directory : Directory)
    (name other : String)
    (content : Bytes) :
    (directory.store name content).content? other =
      if other = name then some content else directory.content? other := by
  have herased := directory.content?_erase name other
  unfold content? at herased ⊢
  rw [store, List.lookup_append, herased, List.lookup_cons]
  split
  · rename_i hsame
    simp [hsame]
  · rename_i hother
    simp [beq_false_of_ne hother]

/-- What a path with a slash leads to.  A path into a file or into something that does not
exist leads nowhere; steps that stay in the directory are passed over. -/
def locateBelow (directory : Directory) (path : String) : Except SystemError Handle :=
  match (path.splitOn "/").filter (· ≠ ".") with
  | [] => .ok .whole
  | [name] =>
      if name = "" then
        .error .notFound
      else if name = ".." then
        .ok .whole
      else
        .ok (.file name)
  | first :: _ =>
      if (directory.content? first).isSome then .error .notADirectory else .error .notFound

/-- What a path leads to, whether or not a file of that name exists.  The directory above can no
more be read or written than the directory itself. -/
def locate (directory : Directory) (path : String) : Except SystemError Handle :=
  if path = outputPath then
    .ok .standardOutput
  else if '/' ∈ path.toList then
    directory.locateBelow path
  else if path = "" then
    .error .notFound
  else if path = "." ∨ path = ".." then
    .ok .whole
  else
    .ok (.file path)

/-- Whether a path is the name of a file in the directory. -/
def IsName (path : String) : Prop :=
  '/' ∉ path.toList ∧ path ≠ "" ∧ path ≠ "." ∧ path ≠ ".."

instance (path : String) : Decidable (IsName path) :=
  inferInstanceAs (Decidable (_ ∧ _ ∧ _ ∧ _))

/-- The name of a file leads to that file. -/
theorem locate_of_isName
    (directory : Directory)
    {name : String}
    (h : IsName name) :
    directory.locate name = .ok (.file name) := by
  obtain ⟨hslash, hempty, hdot, hdots⟩ := h
  have houtput : name ≠ outputPath := by
    rintro rfl
    exact hslash (by decide)
  simp [locate, houtput, hslash, hempty, hdot, hdots]

def openFile (directory : Directory) (path : String) : Except SystemError Handle :=
  match directory.locate path with
  | .ok (.file name) =>
      if (directory.content? name).isSome then .ok (.file name) else .error .notFound
  | found => found

/-- A name can be opened exactly if there is a file of that name. -/
theorem openFile_of_isName
    (directory : Directory)
    {name : String}
    (h : IsName name) :
    directory.openFile name =
      if (directory.content? name).isSome then .ok (.file name) else .error .notFound := by
  rw [openFile, directory.locate_of_isName h]

def createFile
    (directory : Directory)
    (path : String) :
    Except SystemError Handle × Directory :=
  match directory.locate path with
  | .ok (.file name) => (.ok (.file name), directory.store name [])
  | .ok .whole => (.error .isADirectory, directory)
  | found => (found, directory)

def readAll (directory : Directory) : Handle → Except SystemError Bytes × Directory
  | .standardInput =>
      (.ok directory.standardInput, { directory with standardInput := [] })
  | .standardOutput => (.ok [], directory)
  | .file name => (.ok ((directory.content? name).getD []), directory)
  | .whole => (.error .isADirectory, directory)

/-- Writes behind what is open under a handle. -/
def append
    (directory : Directory)
    (handle : Handle)
    (bytes : Bytes) :
    Except SystemError Unit × Directory :=
  match handle with
  | .standardInput => (.error (.other 9 "Bad file descriptor"), directory)
  | .standardOutput =>
      (.ok (), { directory with standardOutput := directory.standardOutput ++ bytes })
  | .file name =>
      (.ok (), directory.store name ((directory.content? name).getD [] ++ bytes))
  | .whole => (.error .isADirectory, directory)

def removeFile
    (directory : Directory)
    (path : String) :
    Except SystemError Unit × Directory :=
  match directory.openFile path with
  | .ok (.file name) => (.ok (), directory.erase name)
  | .ok .whole => (.error .isADirectory, directory)
  | .ok _ => (.error .notPermitted, directory)
  | .error failure => (.error failure, directory)

instance : Host (StateM Directory) where
  Handle := Handle
  openInput
    | some path => fun directory => (directory.openFile path, directory)
    | none => fun directory => (.ok .standardInput, directory)
  createOutput
    | some path => fun directory => directory.createFile path
    | none => fun directory => (.ok .standardOutput, directory)
  readAll handle := fun directory => directory.readAll handle
  write handle bytes := fun directory => directory.append handle bytes
  remove path := fun directory => directory.removeFile path
  report text := fun directory =>
    ((), { directory with standardError := directory.standardError ++ text })

end Directory
end Command
end GifBitmap
