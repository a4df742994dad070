import Mentions.Json.Number
import Mentions.Text.Utf16

/-! # Tokens of JSON text

The scanner is a machine that takes one character at a time. A string literal denotes UTF-16 units,
because an escape can name any unit; only units that pair up denote a text.
-/

namespace Mentions.Json

inductive Token where
  | openArray
  | closeArray
  | openObject
  | closeObject
  | comma
  | colon
  /-- A string, a number, a truth value or null. -/
  | scalar (v : Json)

/-- Where the scanner stands between two characters. Collected parts are kept in reverse. -/
inductive ScanState where
  | between
  | word (read : List Char)
  | number (read : List Char)
  | string (units : List UInt16)
  | escape (units : List UInt16)
  /-- In a four-digit escape, of which `count` digits make up `value`. -/
  | hex (units : List UInt16) (count value : Nat)

/-- The tokens so far, in reverse, and the state. -/
structure Scan where
  tokens : List Token
  state : ScanState

namespace Scan

def initial : Scan := ⟨[], .between⟩

def emit (s : Scan) (t : Token) : Scan := ⟨t :: s.tokens, .between⟩

/-- The value of a string literal with these units. -/
def stringValue (units : List UInt16) : Json :=
  match Text.decodeStrict? units with
  | some cs => .string (String.ofList cs)
  | none => .unreadable

def word? : List Char → Option Json
  | ['n', 'u', 'l', 'l'] => some .null
  | ['t', 'r', 'u', 'e'] => some (.bool true)
  | ['f', 'a', 'l', 's', 'e'] => some (.bool false)
  | _ => none

def isSpace (c : Char) : Bool := c = ' ' || c = '\t' || c = '\n' || c = '\r'

def isNumberChar (c : Char) : Bool :=
  c.isDigit || c = '-' || c = '+' || c = '.' || c = 'e' || c = 'E'

def begin? (s : Scan) (c : Char) : Option Scan :=
  if isSpace c then some { s with state := .between }
  else if c = '[' then some (s.emit .openArray)
  else if c = ']' then some (s.emit .closeArray)
  else if c = '\x7b' then some (s.emit .openObject)
  else if c = '\x7d' then some (s.emit .closeObject)
  else if c = ',' then some (s.emit .comma)
  else if c = ':' then some (s.emit .colon)
  else if c = '\"' then some { s with state := .string [] }
  else if c.isDigit || c = '-' then some { s with state := .number [c] }
  else if c.isLower then some { s with state := .word [c] }
  else none

/-- The unit that a one-letter escape names. -/
def escapeUnit? (c : Char) : Option UInt16 :=
  match c with
  | '\"' => some 0x22
  | '\\' => some 0x5C
  | '/' => some 0x2F
  | 'b' => some 0x08
  | 'f' => some 0x0C
  | 'n' => some 0x0A
  | 'r' => some 0x0D
  | 't' => some 0x09
  | _ => none

def hexDigit? (c : Char) : Option Nat :=
  if c.isDigit then some (c.toNat - '0'.toNat)
  else if 'a' ≤ c ∧ c ≤ 'f' then some (c.toNat - 'a'.toNat + 10)
  else if 'A' ≤ c ∧ c ≤ 'F' then some (c.toNat - 'A'.toNat + 10)
  else none

/-- A number or a word that ends, as a token. -/
def close? (s : Scan) : Option Scan :=
  match s.state with
  | .between => some s
  | .word read => (word? read.reverse).map (s.emit <| .scalar ·)
  | .number read => (Number.read? read.reverse).map (s.emit <| .scalar ·)
  | _ => none

def step (s : Scan) (c : Char) : Option Scan :=
  match s.state with
  | .between => s.begin? c
  | .word read =>
    if c.isLower then some { s with state := .word (c :: read) }
    else s.close?.bind (·.begin? c)
  | .number read =>
    if isNumberChar c then some { s with state := .number (c :: read) }
    else s.close?.bind (·.begin? c)
  | .string units =>
    if c = '\"' then some (s.emit (.scalar (stringValue units.reverse)))
    else if c = '\\' then some { s with state := .escape units }
    else if c.toNat < 0x20 then none
    else some { s with state := .string ((Text.charUnits c).reverse ++ units) }
  | .escape units =>
    if c = 'u' then some { s with state := .hex units 0 0 }
    else (escapeUnit? c).map fun u => { s with state := .string (u :: units) }
  | .hex units count value =>
    (hexDigit? c).map fun d =>
      let value := 16 * value + d
      if count = 3 then { s with state := .string (value.toUInt16 :: units) }
      else { s with state := .hex units (count + 1) value }

end Scan

def tokens? (cs : List Char) : Option (List Token) := do
  let s ← cs.foldlM Scan.step Scan.initial
  return (← s.close?).tokens.reverse

end Mentions.Json
