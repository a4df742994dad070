import Mentions.Files
import Mentions.Path

/-! # File trees as values

A file tree maps places, the lists of names from the root, to files and directories. A path is
walked segment by segment from the working directory, or from the root when it begins with a
slash: a segment after a file, even an empty one, fails, and `..` leads to the enclosing directory.
Names and paths have a greatest length, counted in bytes.
-/

namespace Mentions

inductive FileEntry where
  | file (content : ByteArray)
  | directory

/-- Names from the root down. -/
abbrev Place := List String

structure FileTree where
  entries : List (Place × FileEntry)
  /-- The directory in which relative paths begin. -/
  working : Place

namespace FileTree

/-- What is at a place; the root is always a directory. -/
def entry? (t : FileTree) : Place → Option FileEntry
  | [] => some .directory
  | place => t.entries.lookup place

def maxNameBytes : Nat := 255

/-- The greatest length of a path by which a file is opened. -/
def maxPathBytes : Nat := 4095

def walkSegment (t : FileTree) (place : Place) (segment : String) : Except ReadError Place :=
  match t.entry? place with
  | none => .error .notFound
  | some (.file _) => .error .notDirectory
  | some .directory =>
    if segment = "" || segment = "." then .ok place
    else if segment = ".." then .ok place.dropLast
    else if maxNameBytes < segment.utf8ByteSize then .error .nameTooLong
    else
      match t.entry? (place ++ [segment]) with
      | some _ => .ok (place ++ [segment])
      | none => .error .notFound

/-- The place that a path of any length leads to. The empty path leads nowhere. -/
def walk (t : FileTree) (path : String) : Except ReadError Place :=
  match path.toList with
  | [] => .error .notFound
  | cs =>
    if cs.contains (Char.ofNat 0) then .error .nulInPath
    else
      let start := if cs.head? = some '/' then [] else t.working
      (Path.segments cs).foldlM (fun place s => t.walkSegment place (String.ofList s)) start

/-- The place at which a path opens what is there. -/
def locate (t : FileTree) (path : String) : Except ReadError Place :=
  if path.toList.contains (Char.ofNat 0) then .error .nulInPath
  else if maxPathBytes < path.utf8ByteSize then .error .nameTooLong
  else t.walk path

def isFile (t : FileTree) (path : String) : Bool :=
  match t.locate path with
  | .ok place => match t.entry? place with
    | some (.file _) => true
    | _ => false
  | .error _ => false

def read (t : FileTree) (path : String) : Except ReadError String := do
  let place ← t.locate path
  match t.entry? place with
  | some (.file content) =>
    match String.fromUTF8? content with
    | some text => .ok text
    | none => .error .invalidUtf8
  | some .directory => .error .isDirectory
  | none => .error .notFound

def textOf (place : Place) : String := "/" ++ "/".intercalate place

def canonical (t : FileTree) (path : String) : Option String :=
  match t.walk path with
  | .ok place => some (textOf place)
  | .error _ => none

/-- Puts a directory at a place, unless something is there already. -/
def insertDirectory (t : FileTree) (place : Place) : FileTree :=
  match t.entry? place with
  | some _ => t
  | none => { t with entries := t.entries ++ [(place, .directory)] }

/-- Puts directories at all places on the way to a place, itself included. -/
def insertDirectories (t : FileTree) (place : Place) : FileTree :=
  (List.range (place.length + 1)).foldl (fun t n => t.insertDirectory (place.take n)) t

/-- Puts a file at a place, in place of what was there, and directories on the way to it. -/
def insertFile (t : FileTree) (place : Place) (content : ByteArray) : FileTree :=
  let t := t.insertDirectories place.dropLast
  { t with entries := t.entries.filter (·.1 != place) ++ [(place, .file content)] }

/-- A directory for a path, made with those on the way to it where they are missing. -/
def ensureDirectory (t : FileTree) (path : String) : Except ReadError (FileTree × Place) :=
  let start := if path.toList.head? = some '/' then [] else t.working
  (Path.segments path.toList).foldlM (fun (t, place) s =>
    match t.walkSegment place (String.ofList s) with
    | .ok next => .ok (t, next)
    | .error .notFound =>
      let next := place ++ [String.ofList s]
      .ok (t.insertDirectory next, next)
    | .error e => .error e) (t, start)

/-- The place of a file in a directory that is made where it is missing. -/
def ensurePlace (t : FileTree) (dir name : String) : Except ReadError (FileTree × Place) := do
  let (made, place) ← t.ensureDirectory dir
  match made.walkSegment place name with
  | .ok there =>
    match made.entry? there with
    | some .directory => .error .isDirectory
    | _ => .ok (made, there)
  | .error .notFound => .ok (made, place ++ [name])
  | .error e => .error e

/-- Makes an empty file in a directory, unless there is one already. -/
def prepare (t : FileTree) (dir name : String) : Except ReadError FileTree := do
  let (made, place) ← t.ensurePlace dir name
  match made.entry? place with
  | some _ => return made
  | none => return made.insertFile place .empty

/-- Writes a file, in place of the one there, and makes the directory of the path where it is
missing. A path without a name leads to a directory. -/
def write (t : FileTree) (path : String) (content : ByteArray) : Except ReadError FileTree := do
  let some name := Path.fileName? path | .error .isDirectory
  let (made, place) ← t.ensurePlace ((Path.parent? path).getD "") name
  return made.insertFile place content

def files : Files (StateM FileTree) where
  isFile path := do return (← get).isFile path
  read path := do return (← get).read path
  canonical path := do return (← get).canonical path
  prepare dir name := do
    match (← get).prepare dir name with
    | .ok t => set t; return .ok ()
    | .error e => return .error e

end FileTree
end Mentions
