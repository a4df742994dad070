import Mentions.Json

/-! # Compact JSON text

Values are written without spaces, members in their order. In strings only the quote, the backslash
and the characters below U+0020 are escaped.
-/

namespace Mentions.Json

/-- A character inside a string literal. -/
def escapeChar (c : Char) : List Char :=
  if c = '\"' then ['\\', '\"']
  else if c = '\\' then ['\\', '\\']
  else if c = '\n' then ['\\', 'n']
  else if c = '\r' then ['\\', 'r']
  else if c = '\t' then ['\\', 't']
  else if c.toNat = 0x08 then ['\\', 'b']
  else if c.toNat = 0x0C then ['\\', 'f']
  else if c.toNat < 0x20 then
    ['\\', 'u', '0', '0', Nat.digitChar (c.toNat / 16), Nat.digitChar (c.toNat % 16)]
  else [c]

def quote (s : String) : String := "\"" ++ String.ofList (s.toList.flatMap escapeChar) ++ "\""

mutual

/-- The compact text of a value. An unreadable value has no text of its own and is null. -/
def render : Json → String
  | null => "null"
  | bool b => if b then "true" else "false"
  | integer n => toString n
  | decimal literal => literal
  | string s => quote s
  | array items => "[" ++ ",".intercalate (renderItems items) ++ "]"
  | object members => "\x7b" ++ ",".intercalate (renderMembers members) ++ "\x7d"
  | unreadable => "null"

def renderItems : List Json → List String
  | [] => []
  | v :: rest => v.render :: renderItems rest

def renderMembers : List (String × Json) → List String
  | [] => []
  | (name, v) :: rest => (quote name ++ ":" ++ v.render) :: renderMembers rest

end

end Mentions.Json
