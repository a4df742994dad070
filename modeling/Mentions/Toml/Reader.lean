import Mentions.Toml.Scalar
import Mentions.Toml.Table
import Mentions.Toml.Text

/-! # Reading TOML documents

A document is read line by line into tables, and the result is a JSON object. Values nest through
arrays and inline tables; those loops are bounded by the length of the text.
-/

namespace Mentions.Toml

/-- Arrays and inline tables, and the parts of a dotted key, stay below this number. -/
def maxDepth : Nat := 80

def isBareChar (c : Char) : Bool := c.isAlphanum || c = '-' || c = '_'

def keyPart? (cs : List Char) : Option (String × List Char) :=
  let bare := cs.takeWhile isBareChar
  if bare.isEmpty then lineString? cs
  else some (String.ofList bare, cs.dropWhile isBareChar)

/-- A dotted key, blanks around its parts included. -/
def keyParts? : (bound : Nat) → List Char → Option (List String × List Char)
  | 0, _ => none
  | n + 1, cs => do
    let (part, rest) ← keyPart? (skipBlanks cs)
    match skipBlanks rest with
    | '.' :: rest =>
      let (parts, rest) ← keyParts? n rest
      return (part :: parts, rest)
    | rest => return ([part], rest)

/-- A dotted key as the way to it and its last part. -/
def key? (cs : List Char) : Option (List String × String × List Char) := do
  let (parts, rest) ← keyParts? maxDepth cs
  guard (parts.length < maxDepth)
  return (parts.dropLast, ← parts.getLast?, rest)

mutual

/-- A value at a depth of arrays and inline tables around it. -/
def value? : (bound depth : Nat) → List Char → Option (Json × List Char)
  | 0, _, _ => none
  | n + 1, depth, cs =>
    match cs with
    | '[' :: rest => if depth + 1 < maxDepth then items? n (depth + 1) [] rest else none
    | '\x7b' :: rest =>
      if depth + 1 < maxDepth then
        match skipBlanks rest with
        | '\x7d' :: rest => some (.object [], rest)
        | rest => pairs? n (depth + 1) [] rest
      else none
    | c :: _ =>
      if c = '\"' || c = apostrophe then (string? cs).map fun (s, rest) => (.string s, rest)
      else scalar? cs
    | [] => none

/-- The items of an array that follow those read, in reverse, up to its end. -/
def items? : (bound depth : Nat) → List Json → List Char → Option (Json × List Char)
  | 0, _, _, _ => none
  | n + 1, depth, done, cs => do
    match ← skipLines false cs with
    | ']' :: rest => return (.array done.reverse, rest)
    | cs =>
      let (v, rest) ← value? n depth cs
      match ← skipLines false rest with
      | ',' :: rest => items? n depth (v :: done) rest
      | ']' :: rest => return (.array (v :: done).reverse, rest)
      | _ => none

/-- The pairs of an inline table that follow those read, up to its end. -/
def pairs? : (bound depth : Nat) → Entries → List Char → Option (Json × List Char)
  | 0, _, _, _ => none
  | n + 1, depth, done, cs => do
    let (way, key, rest) ← key? cs
    let (v, rest) ← value? n depth (skipBlanks (← char? '=' rest))
    let done ← done.put key v way
    match skipBlanks rest with
    | ',' :: rest => pairs? n depth done rest
    | '\x7d' :: rest => return (.object (entriesToJson done), rest)
    | _ => none

end

/-- What was read of a document: all tables, and the way to the one whose keys follow. -/
structure Document where
  entries : Entries
  current : List String

/-- One line that is not blank: a header or a key with its value. -/
def Document.line? (d : Document) (cs : List Char) : Option (Document × List Char) :=
  match cs with
  | '[' :: '[' :: rest => do
    let (way, key, rest) ← key? rest
    let rest ← lineEnd? (← char? ']' (← char? ']' rest))
    return (⟨← d.entries.reach (Entries.openElement key) way, way ++ [key]⟩, rest)
  | '[' :: rest => do
    let (way, key, rest) ← key? rest
    let rest ← lineEnd? (← char? ']' rest)
    return (⟨← d.entries.reach (Entries.openTable key) way, way ++ [key]⟩, rest)
  | cs => do
    let (way, key, rest) ← key? cs
    let (v, rest) ← value? (2 * rest.length + 2) 0 (skipBlanks (← char? '=' rest))
    let rest ← lineEnd? rest
    return (⟨← d.entries.reach (Entries.put key v way) d.current, d.current⟩, rest)

/-- The lines of a document, as many as the bound allows. -/
def Document.lines? : (bound : Nat) → Document → List Char → Option Document
  | 0, _, _ => none
  | n + 1, d, cs =>
    match skipBlanks cs with
    | [] => some d
    | c :: rest =>
      if c = '#' || c = '\n' || c = '\r' then do d.lines? n (← lineEnd? (c :: rest))
      else do
        let (d, rest) ← d.line? (c :: rest)
        d.lines? n rest

/-- The value of a document. A mark of the byte order at its beginning does not count. The document
itself is never a time. -/
def parse? (text : String) : Option Json := do
  let cs := match text.toList with
    | c :: rest => if c.toNat = 0xFEFF then rest else c :: rest
    | [] => []
  let d ← Document.lines? (cs.length + 1) ⟨[], []⟩ cs
  return .object (← readMemberTimes? (entriesToJson d.entries))

end Mentions.Toml
