import Mentions.Json.Number
import Mentions.Toml.Text

/-! # Times in TOML

A time is a date, a time of day or both, and the two together may have an offset from universal
time. It is passed on as an object with one member, which holds its text, so that no setting takes
it for a string. A table written in that form is a time as well.
-/

namespace Mentions.Toml

/-- Exactly `count` digits, whose number lies in the bounds. -/
def fixedDigits? (count low high : Nat) (cs : List Char) : Option (Nat × List Char) :=
  let ds := cs.take count
  let n := Json.Number.ofDigits ds
  if ds.length = count && ds.all Char.isDigit && low ≤ n && n ≤ high then some (n, cs.drop count)
  else none

def daysIn (year month : Nat) : Nat :=
  if month = 2 then
    if year % 4 = 0 && (year % 100 != 0 || year % 400 = 0) then 29 else 28
  else if month = 4 || month = 6 || month = 9 || month = 11 then 30
  else 31

def date? (cs : List Char) : Option (List Char) := do
  let (year, cs) ← fixedDigits? 4 0 9999 cs
  let (month, cs) ← fixedDigits? 2 1 12 (← char? '-' cs)
  let (_, cs) ← fixedDigits? 2 1 (daysIn year month) (← char? '-' cs)
  return cs

def time? (cs : List Char) : Option (List Char) := do
  let (_, cs) ← fixedDigits? 2 0 23 cs
  let (_, cs) ← fixedDigits? 2 0 59 (← char? ':' cs)
  let (_, cs) ← fixedDigits? 2 0 60 (← char? ':' cs)
  match cs with
  | '.' :: rest =>
    match rest with
    | d :: _ => if d.isDigit then return rest.dropWhile Char.isDigit else return cs
    | [] => return cs
  | cs => return cs

/-- The rest after an offset from universal time, if there is one. -/
def offset? (cs : List Char) : Option (List Char) :=
  match cs with
  | [] => some []
  | c :: rest =>
    if c = 'Z' || c = 'z' then some rest
    else if c = '+' || c = '-' then do
      let (_, rest) ← fixedDigits? 2 0 23 rest
      let (_, rest) ← fixedDigits? 2 0 59 (← char? ':' rest)
      return rest
    else some cs

/-- Two digits and a colon begin a time of day. -/
def looksLikeTime (cs : List Char) : Bool :=
  (cs.take 2).all Char.isDigit && (cs.take 2).length = 2 && (cs.drop 2).head? = some ':'

/-- Four digits and a minus begin a date. -/
def looksLikeDate (cs : List Char) : Bool :=
  (cs.take 4).all Char.isDigit && (cs.take 4).length = 4 && (cs.drop 4).head? = some '-'

/-- The rest after a date, which a time and an offset may follow, or after a time of day. -/
def dateTime? (cs : List Char) : Option (List Char) :=
  if looksLikeDate cs then do
    let rest ← date? cs
    match rest with
    | c :: after =>
      if (c = 'T' || c = 't' || c = ' ') && looksLikeTime after then do
        offset? (← time? after)
      else return rest
    | [] => return rest
  else time? cs

def isTime (s : String) : Bool := dateTime? s.toList == some []

/-! ## Times as objects -/

/-- The name of the member that holds the text of a time. -/
def timeKey : String := "$__toml_private_datetime"

def timeJson (text : String) : Json := .object [(timeKey, .string text)]

/-- The time that a member with the name for times stands for. It has to hold the text of one. -/
def memberTime? : Json → Option Json
  | .string s => if isTime s then some (timeJson s) else none
  | _ => none

mutual

/-- The value in which every table that begins with the member of a time is that time, whatever
follows in the table. -/
def readTimes? : Json → Option Json
  | .array items => (readItemTimes? items).map .array
  | .object members =>
    match members.head? with
    | none => some (.object [])
    | some (key, v) =>
      if key = timeKey then memberTime? v else (readMemberTimes? members).map .object
  | v => some v

def readItemTimes? : List Json → Option (List Json)
  | [] => some []
  | v :: rest => do return (← readTimes? v) :: (← readItemTimes? rest)

/-- The members with the times in their values. -/
def readMemberTimes? : List (String × Json) → Option (List (String × Json))
  | [] => some []
  | (key, v) :: rest => do return (key, ← readTimes? v) :: (← readMemberTimes? rest)

end

end Mentions.Toml
