/-! # File paths as text

A path is read lexically, without looking at any file. Slashes separate its segments; empty
segments and `.` count for nothing, except a `.` at the very beginning. The parent drops the last
segment that counts and keeps the text before it, so that `a//b/c` has the parent `a//b`.
-/

namespace Mentions.Path

/-- How a path begins: at the root, at an explicit `.`, or with a name. -/
inductive Head where
  | root
  | here
  | name
  deriving DecidableEq, Repr

def Head.text : Head → List Char
  | root => ['/']
  | here => ['.']
  | name => []

/-- The stretches between the slashes. -/
def segments : List Char → List (List Char)
  | [] => [[]]
  | c :: cs =>
    if c = '/' then [] :: segments cs
    else
      match segments cs with
      | [] => [[c]]
      | s :: rest => (c :: s) :: rest

/-- A segment that counts as a component of its path. -/
def counts (segment : List Char) : Bool := segment != [] && segment != ['.']

/-- A path cut into its beginning and the segments after it. -/
structure Parts where
  head : Head
  body : List (List Char)

def Parts.ofChars : List Char → Parts
  | '/' :: rest => ⟨.root, segments rest⟩
  | ['.'] => ⟨.here, [[]]⟩
  | '.' :: '/' :: rest => ⟨.here, segments ('/' :: rest)⟩
  | cs => ⟨.name, segments cs⟩

def parts (path : String) : Parts := .ofChars path.toList

/-- The components by which paths are compared: the beginning and the segments that count. -/
def components (path : String) : Head × List (List Char) :=
  ((parts path).head, (parts path).body.filter counts)

/-- Two spellings of one path. -/
def same (a b : String) : Bool := components a == components b

/-- The text of a beginning and of segments listed from the last to the first. -/
def textOf (head : Head) (reversed : List (List Char)) : String :=
  String.ofList (head.text ++ ['/'].intercalate reversed.reverse)

/-- The path without its last component; the root and the empty path have no parent. -/
def parent? (path : String) : Option String :=
  let p := parts path
  match p.body.reverse.dropWhile (!counts ·) with
  | _ :: before => some (textOf p.head (before.dropWhile (!counts ·)))
  | [] => if p.head = .here then some "" else none

/-- Parents of parents, nearest first, for segments listed from the last to the first. -/
def parentsOf (head : Head) : List (List Char) → List String
  | [] => if head = .here then [""] else []
  | s :: before =>
    if counts s then textOf head (before.dropWhile (!counts ·)) :: parentsOf head before
    else parentsOf head before

/-- The path and then its parent, that one's parent and so on, to the root or the empty path. -/
def ancestors (path : String) : List String :=
  let p := parts path
  path :: parentsOf p.head p.body.reverse

/-- The last component, unless the path ends in `..` or has no component with a name. -/
def fileName? (path : String) : Option String :=
  match (parts path).body.reverse.dropWhile (!counts ·) with
  | s :: _ => if s = ['.', '.'] then none else some (String.ofList s)
  | [] => none

/-- A file name placed in a directory: a slash stands between, unless one is there already or the
directory is the empty path. -/
def join (dir name : String) : String :=
  match dir.toList.getLast? with
  | none => name
  | some '/' => dir ++ name
  | some _ => dir ++ "/" ++ name

end Mentions.Path
