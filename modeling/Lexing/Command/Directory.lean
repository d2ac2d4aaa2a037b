import Lexing.Command.Program

/-! A directory that holds nothing but files, and what reading a path gives
there. Paths are taken apart at slashes, as the system does it. -/

namespace Lexing.Command

structure File where
  name : String
  content : ByteArray
  readable : Bool

structure Directory where
  files : List File

/-- Where a part of a path leads. -/
inductive Place
  | directory
  /-- Some directory that is not the one modelled; no name is known in it. -/
  | elsewhere
  | file (f : File)

namespace Directory

/-- The longest name in a path, in bytes. -/
def longestName : Nat := 255

/-- The longest path, in bytes. A longer one is refused before it is taken apart. -/
def longestPath : Nat := 4095

def step (d : Directory) (place : Place) (part : String) : Except ReadFailure Place :=
  match place with
  | .file _ => .error .notDirectory
  | place =>
      if part = "" ∨ part = "." then .ok place
      else if part = ".." then .ok .elsewhere
      else if longestName < (textBytes part).length then .error .nameTooLong
      else match place, d.files.find? (·.name = part) with
        | .directory, some f => .ok (.file f)
        | _, _ => .error .notFound

/-- A path that starts with a slash leads away from the directory. -/
def locate (d : Directory) (path : String) : Except ReadFailure Place :=
  if path = "" then .error .notFound
  else if longestPath < (textBytes path).length then .error .nameTooLong
  else
    let origin : Place := if path.toList.head? = some '/' then .elsewhere else .directory
    (path.splitOn "/").foldlM d.step origin

def read (d : Directory) (path : String) : Except ReadFailure ByteArray := do
  match ← d.locate path with
  | .file f => if f.readable then return f.content else throw .permissionDenied
  | _ => throw .isDirectory

end Directory

end Lexing.Command
