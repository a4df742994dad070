import Mentions.Json.Token

/-! # Strings and blanks in TOML

Readers take the rest of the text and give a result with what is left after it, or nothing. There
are four kinds of strings: basic ones with escapes and literal ones without, each on one line or,
between tripled quotes, on many.
-/

namespace Mentions.Toml

def isBlank (c : Char) : Bool := c = ' ' || c = '\t'

def skipBlanks (cs : List Char) : List Char := cs.dropWhile isBlank

def apostrophe : Char := Char.ofNat 39

/-- What may stand in a comment or a string: a tab or anything but a control character. -/
def isTextChar (c : Char) : Bool := c = '\t' || (0x20 ≤ c.toNat && c.toNat != 0x7F)

def char? (c : Char) : List Char → Option (List Char)
  | [] => none
  | d :: rest => if c = d then some rest else none

def newline? : List Char → Option (List Char)
  | '\n' :: rest => some rest
  | '\r' :: '\n' :: rest => some rest
  | _ => none

/-- The rest after the end of a line: blanks, perhaps a comment, and a line break or the end. -/
def lineEnd? (cs : List Char) : Option (List Char) :=
  let cs := match skipBlanks cs with
    | '#' :: rest => rest.dropWhile isTextChar
    | cs => cs
  if cs.isEmpty then some [] else newline? cs

/-- The rest after blanks, line breaks and comments; every comment ends with its line. -/
def skipLines (inComment : Bool) : List Char → Option (List Char)
  | [] => if inComment then none else some []
  | c :: rest =>
    if c = '\n' then skipLines false rest
    else if c = '\r' then
      if rest.head? = some '\n' then skipLines false rest else none
    else if inComment then
      if isTextChar c then skipLines true rest else none
    else if isBlank c then skipLines false rest
    else if c = '#' then skipLines true rest
    else some (c :: rest)

def simpleEscape? (c : Char) : Option Char :=
  match c with
  | 'b' => some (Char.ofNat 0x08)
  | 't' => some '\t'
  | 'n' => some '\n'
  | 'f' => some (Char.ofNat 0x0C)
  | 'r' => some '\r'
  | '\"' => some '\"'
  | '\\' => some '\\'
  | _ => none

/-- The character with a number in hexadecimal digits; surrogates are no characters. -/
def codePoint? (digits : List Char) : Option Char := do
  let values ← digits.mapM Json.Scan.hexDigit?
  let n := values.foldl (fun n d => 16 * n + d) 0
  if n.isValidChar then some (Char.ofNat n) else none

/-- Puts a character before the text of a string that was read. -/
def prepend (c : Char) : Option (List Char × List Char) → Option (List Char × List Char) :=
  Option.map fun (text, rest) => (c :: text, rest)

/-- What follows the quotes that close a string on many lines: up to two more belong to it. -/
def closing (quote : Char) (rest : List Char) : List Char × List Char :=
  let extra := min 2 (rest.takeWhile (· = quote)).length
  (List.replicate extra quote, rest.drop extra)

/-- The character that an escape names, and how many characters name it after the backslash. -/
def escape? : List Char → Option (Char × Nat)
  | [] => none
  | 'u' :: rest =>
    if 4 ≤ rest.length then (codePoint? (rest.take 4)).map (·, 5) else none
  | 'U' :: rest =>
    if 8 ≤ rest.length then (codePoint? (rest.take 8)).map (·, 9) else none
  | c :: _ => (simpleEscape? c).map (·, 1)

/-- The text of a basic string after its opening quotes. The first `pass` characters belong to an
escape. A backslash at the end of a line joins it to the next: the blanks and line breaks that
follow are skipped. -/
def basicBody (multi : Bool) : (pass : Nat) → (joining : Bool) → List Char →
    Option (List Char × List Char)
  | _, _, [] => none
  | pass + 1, _, _ :: rest => basicBody multi pass false rest
  | 0, joining, c :: rest =>
    if joining && (isBlank c || c = '\n' || (c = '\r' && rest.head? = some '\n')) then
      basicBody multi 0 true rest
    else if c = '\"' then
      if !multi then some ([], rest)
      else if rest.take 2 = ['\"', '\"'] then some (closing '\"' (rest.drop 2))
      else prepend c (basicBody multi 0 false rest)
    else if c = '\\' then
      match escape? rest with
      | some (ch, count) => prepend ch (basicBody multi count false rest)
      | none =>
        if multi && (newline? (skipBlanks rest)).isSome then basicBody multi 0 true rest else none
    else if multi && c = '\n' then prepend c (basicBody multi 0 false rest)
    else if multi && c = '\r' && rest.head? = some '\n' then basicBody multi 0 false rest
    else if isTextChar c then prepend c (basicBody multi 0 false rest)
    else none

/-- The text of a literal string after its opening quotes. -/
def literalBody (multi : Bool) : List Char → Option (List Char × List Char)
  | [] => none
  | c :: rest =>
    if c = apostrophe then
      if !multi then some ([], rest)
      else if rest.take 2 = [apostrophe, apostrophe] then
        some (closing apostrophe (rest.drop 2))
      else prepend c (literalBody multi rest)
    else if multi && c = '\n' then prepend c (literalBody multi rest)
    else if multi && c = '\r' && rest.head? = some '\n' then literalBody multi rest
    else if isTextChar c then prepend c (literalBody multi rest)
    else none

/-- Without the line break that may follow the opening quotes. -/
def dropNewline (cs : List Char) : List Char := (newline? cs).getD cs

/-- A string, from its opening quote on. -/
def string? (cs : List Char) : Option (String × List Char) :=
  let body := match cs with
    | '\"' :: '\"' :: '\"' :: rest => basicBody true 0 false (dropNewline rest)
    | '\"' :: rest => basicBody false 0 false rest
    | a :: rest =>
      if a = apostrophe then
        if rest.take 2 = [apostrophe, apostrophe] then literalBody true (dropNewline (rest.drop 2))
        else literalBody false rest
      else none
    | [] => none
  body.map fun (text, rest) => (String.ofList text, rest)

/-- A string on one line, as a key can be. -/
def lineString? (cs : List Char) : Option (String × List Char) :=
  let body := match cs with
    | c :: rest =>
      if c = '\"' then basicBody false 0 false rest
      else if c = apostrophe then literalBody false rest
      else none
    | [] => none
  body.map fun (text, rest) => (String.ofList text, rest)

end Mentions.Toml
