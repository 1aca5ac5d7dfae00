/-! A tree of files that can be read by path. -/
namespace Stencil

/-- Files under their paths, each path a list of names from the current directory. -/
structure Files where
  entries : List (List String × ByteArray)

inductive FileFault where
  | notFound | notDirectory | isDirectory | nulInPath | notText
  deriving DecidableEq, Repr

def FileFault.message : FileFault → String
  | .notFound => "No such file or directory (os error 2)"
  | .notDirectory => "Not a directory (os error 20)"
  | .isDirectory => "Is a directory (os error 21)"
  | .nulInPath => "file name contained an unexpected NUL byte"
  | .notText => "stream did not contain valid UTF-8"

namespace Files

def empty : Files := ⟨[]⟩

/-- Adds a file; slashes in its name make directories. -/
def add (files : Files) (name : String) (content : ByteArray) : Files :=
  ⟨((name.splitOn "/").filter (fun part => part ≠ "" ∧ part ≠ "."), content) :: files.entries⟩

private def isFile (files : Files) (path : List String) : Bool :=
  files.entries.any fun e => e.1 == path

private def isDirectory (files : Files) (path : List String) : Bool :=
  path == [] || files.entries.any fun e => e.1 != path && path.isPrefixOf e.1

/-- Follows the parts of a path from a directory, or from a place outside of the current directory, where
nothing but directories is known. -/
private def walk (files : Files) : Option (List String) → List String →
    Except FileFault (Option (List String))
  | place, [] => .ok place
  | none, part :: parts =>
    if part ∈ ["", ".", ".."] then walk files none parts else .error .notFound
  | some dir, part :: parts =>
    if files.isFile dir then .error .notDirectory
    else if !files.isDirectory dir then .error .notFound
    else if part = "" ∨ part = "." then walk files (some dir) parts
    else if part = ".." then walk files (if dir = [] then none else some dir.dropLast) parts
    else walk files (some (dir ++ [part])) parts

/-- The text of the file under a path. -/
def read (files : Files) (path : String) : Except FileFault String := do
  if path.contains '\x00' then throw .nulInPath
  if path = "" then throw .notFound
  match ← files.walk (if path.startsWith "/" then none else some []) (path.splitOn "/") with
  | none => throw .isDirectory
  | some place =>
    match files.entries.find? (fun e => e.1 == place) with
    | none => throw (if files.isDirectory place then .isDirectory else .notFound)
    | some e =>
      match String.fromUTF8? e.2 with
      | some text => pure text
      | none => throw .notText

end Files

end Stencil
