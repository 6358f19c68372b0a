import Rsc.Command.Path
import Rsc.Text.Utf8

/-!
# File systems

A file system as far as the command can tell: files with their contents, directories, and a
working directory from which paths start. Reading and writing follow a path component by
component and say why they fail.
-/

namespace Rsc

/-- Why a file cannot be opened. -/
inductive FileFault where
  /-- A name on the path is missing. -/
  | notFound
  /-- A file stands where a directory is needed. -/
  | notDirectory
  /-- A directory stands where a file is needed. -/
  | isDirectory
  /-- The path or one of its names is too long. -/
  | nameTooLong
  /-- The file may not be used. -/
  | permissionDenied
  /-- The path holds a zero character. -/
  | embeddedNul
  deriving DecidableEq, Repr

/-- The number and name of a fault in messages. -/
def FileFault.summary : FileFault → Text
  | notFound => "[Errno 2] No such file or directory".toList
  | permissionDenied => "[Errno 13] Permission denied".toList
  | notDirectory => "[Errno 20] Not a directory".toList
  | isDirectory => "[Errno 21] Is a directory".toList
  | nameTooLong => "[Errno 36] File name too long".toList
  | embeddedNul => "embedded null byte".toList

/-- What a path can name. -/
inductive Node where
  | file (contents : Bytes)
  | directory
  deriving DecidableEq, Repr

/-- Files and directories by their components from the root. The directories on the way to an
entry, and to the working directory, need no entries of their own. -/
structure FileSystem where
  entries : List (List Text × Node) := []
  workingDirectory : List Text := []
  deriving DecidableEq, Repr

namespace FileSystem

/-- What stands at a place, if anything does. -/
def node? (fs : FileSystem) (place : List Text) : Option Node :=
  match fs.entries.lookup place with
  | some node => some node
  | none =>
    if place.isPrefixOf fs.workingDirectory || fs.entries.any fun entry =>
        place.isPrefixOf entry.1 then some .directory
    else none

/-- The most bytes of one name. -/
def maxNameBytes : Nat := 255

/-- The number of bytes from which on a path is too long. -/
def pathLimit : Nat := 4096

/-- Goes from a directory through one component to another directory. -/
def enter (fs : FileSystem) (place : List Text) (name : Text) : Except FileFault (List Text) :=
  if name = Path.here then .ok place
  else if name = Path.parent then .ok place.dropLast
  else if maxNameBytes < (Utf8.encode name).length then .error .nameTooLong
  else match fs.node? (place ++ [name]) with
    | none => .error .notFound
    | some (.file _) => .error .notDirectory
    | some .directory => .ok (place ++ [name])

/-- Where a path leads. -/
inductive Target where
  /-- To a directory, reached without naming it last. -/
  | directory
  /-- To a name in an existing directory; `slash` tells whether a slash follows the name. -/
  | entry (place : List Text) (name : Text) (slash : Bool)
  deriving DecidableEq, Repr

/-- Follows a path up to its last component. -/
def follow (fs : FileSystem) (path : Text) : Except FileFault Target := do
  if path.contains (Char.ofNat 0) then .error .embeddedNul
  if path.isEmpty then .error .notFound
  if pathLimit ≤ (Utf8.encode path).length then .error .nameTooLong
  let start := if path.head? = some '/' then [] else fs.workingDirectory
  let names := Path.components path
  let place ← names.dropLast.foldlM fs.enter start
  match names.getLast? with
  | none => return .directory
  | some name =>
    if name = Path.here ∨ name = Path.parent then return .directory
    return .entry place name (path.getLast? = some '/')

/-- The contents of a file. -/
def read (fs : FileSystem) (path : Text) : Except FileFault Bytes := do
  match ← fs.follow path with
  | .directory => .error .isDirectory
  | .entry place name slash =>
    if maxNameBytes < (Utf8.encode name).length then .error .nameTooLong
    match fs.node? (place ++ [name]) with
    | none => .error .notFound
    | some .directory => .error .isDirectory
    | some (.file contents) => if slash then .error .notDirectory else .ok contents

/-- The file system with a file put at a place, over the file that was there. -/
def put (fs : FileSystem) (place : List Text) (contents : Bytes) : FileSystem :=
  { fs with entries := fs.entries.filter (·.1 != place) ++ [(place, .file contents)] }

/-- Writes a file, creating it if need be. -/
def write (fs : FileSystem) (path : Text) (contents : Bytes) : Except FileFault FileSystem := do
  match ← fs.follow path with
  | .directory => .error .isDirectory
  | .entry place name slash =>
    if slash then .error .isDirectory
    if maxNameBytes < (Utf8.encode name).length then .error .nameTooLong
    match fs.node? (place ++ [name]) with
    | some .directory => .error .isDirectory
    | _ => return fs.put (place ++ [name]) contents

end FileSystem

end Rsc
