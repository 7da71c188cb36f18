import AtMostOnce.Failure
import AtMostOnce.Table
import AtMostOnce.Text.Quoted

/-! A catalog of files. Creating a file gives it a new number, and renames are recorded in a
journal, so that repeating either shows. -/
namespace AtMostOnce

/-- Where renames are recorded. -/
inductive Journal where
  | absent
  | file (text : String)
  /-- A journal to which nothing can be written. -/
  | failing (e : IoError)

def Journal.append (line : String) : Journal → Except IoError Journal
  | absent => .ok absent
  | file text => .ok (file (text ++ line))
  | failing e => .error e

structure File where
  id : Nat
  path : String
  /-- Nanoseconds from the beginning of 1970. -/
  createdAt : Nat
deriving DecidableEq

structure Catalog where
  /-- The files under their paths. -/
  files : Table String File := .empty
  /-- The number given last. -/
  lastId : Nat := 0
  journal : Journal := .absent

namespace Catalog

/-- The length in bytes that a path may have. -/
def maxPathLength : Nat := 256

def invalidPath (message : String) : DomainError := { code := "InvalidPath", message := message }

def alreadyExists (path : String) (cause : Option String) : DomainError :=
  ⟨"FileAlreadyExists", path ++ " already exists", cause⟩

def doesNotExist (path : String) : DomainError :=
  { code := "FileDoesNotExist", message := path ++ " does not exist" }

/-- A path begins with a slash and does not end there, and is not too long. -/
def checkPath (path : String) : Except DomainError Unit :=
  if path.toList.head? ≠ some '/' ∨ path.utf8ByteSize < 2 then
    .error (invalidPath (Text.quoted path ++ " is not an absolute file path"))
  else if maxPathLength < path.utf8ByteSize then
    .error (invalidPath s!"path exceeds maximum length of {maxPathLength} bytes")
  else .ok ()

/-- Creates a file under a new number. -/
def create (c : Catalog) (date : Nat) (path : String) : Except DomainError File × Catalog :=
  match checkPath path with
  | .error e => (.error e, c)
  | .ok () =>
    match c.files.find? path with
    | some held => (.error (alreadyExists path (some s!"held by file {held.id}")), c)
    | none =>
      let file : File := ⟨c.lastId + 1, path, date⟩
      (.ok file, { c with files := c.files.insert path file, lastId := c.lastId + 1 })

/-- The record of a rename. -/
def renameLine (src dst : String) : String := s!"rename\t{src}\t{dst}\n"

/-- What stands in the way of a rename, or else the file to be renamed. -/
def checkRename (c : Catalog) (src dst : String) : Except DomainError File := do
  checkPath src
  checkPath dst
  match c.files.find? src with
  | none => throw (doesNotExist src)
  | some file =>
    if (c.files.find? dst).isSome then throw (alreadyExists dst none)
    pure file

/-- Moves a file to another path, once the rename has been recorded. -/
def rename (c : Catalog) (src dst : String) : Except WideError File × Catalog :=
  match c.checkRename src dst with
  | .error e => (.error (.domain e), c)
  | .ok file =>
    match c.journal.append (renameLine src dst) with
    | .error e => (.error (.io e), c)
    | .ok journal =>
      let file := { file with path := dst }
      (.ok file,
        { c with files := (c.files.erase src).insert dst file, journal := journal })

end Catalog
end AtMostOnce
