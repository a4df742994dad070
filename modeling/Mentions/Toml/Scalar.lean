import Mentions.Toml.Time

/-! # Numbers, truth values and times in TOML

Integers have 64 bits and may be written in four bases; single underscores may stand between
digits. A float that is not finite has no JSON number and becomes null, and one that is too large is
refused if it is positive.
-/

namespace Mentions.Toml

/-- The digits that follow a digit, without the underscores between them. An underscore has to be
followed by a digit. -/
def moreDigits? (ok : Char → Bool) : List Char → Option (List Char × List Char)
  | [] => some ([], [])
  | c :: rest =>
    if ok c then (moreDigits? ok rest).map fun (ds, after) => (c :: ds, after)
    else if c = '_' then
      match rest with
      | d :: after =>
        if ok d then (moreDigits? ok after).map fun (ds, left) => (d :: ds, left) else none
      | [] => none
    else some ([], c :: rest)

/-- One digit or more. -/
def digits? (ok : Char → Bool) : List Char → Option (List Char × List Char)
  | [] => none
  | c :: rest =>
    if ok c then (moreDigits? ok rest).map fun (ds, after) => (c :: ds, after) else none

/-- The digits of a decimal integer; after a leading zero there are no more. -/
def wholeDigits? : List Char → Option (List Char × List Char)
  | '0' :: rest => some (['0'], rest)
  | cs => digits? Char.isDigit cs

def int64? (n : Int) : Option Json :=
  if -9223372036854775808 ≤ n ∧ n ≤ 9223372036854775807 then some (.integer n) else none

/-- An integer in base 16, 8 or 2, after the two characters that announce it. -/
def basedInteger? (base : Nat) (cs : List Char) : Option (Json × List Char) := do
  let isDigit := fun c => (Json.Scan.hexDigit? c).any (· < base)
  let (ds, rest) ← digits? isDigit cs
  let n := ds.foldl (fun n c => base * n + (Json.Scan.hexDigit? c).getD 0) 0
  return (← int64? n, rest)

/-- A sign and the rest; no sign counts as plus. -/
def sign : List Char → Bool × List Char
  | '-' :: rest => (true, rest)
  | '+' :: rest => (false, rest)
  | cs => (false, cs)

/-- Whether a significand times a power of ten rounds to infinity as a double. -/
def overflows (significand : Nat) (power : Int) : Bool :=
  let size := (Nat.toDigits 10 significand).length + power
  if significand = 0 || size < 308 then false
  else if 310 < size then true
  else (Nat.pow 2 1024 - Nat.pow 2 970) * Nat.pow 10 (-power).toNat ≤
    significand * Nat.pow 10 power.toNat

/-- A float, or null where it is not finite. -/
def float? (negative : Bool) (whole fraction : List Char) (exponent : Int) : Option Json :=
  if overflows (Json.Number.ofDigits (whole ++ fraction)) (exponent - fraction.length) then
    if negative then some .null else none
  else
    some <| .decimal <|
      (if negative then "-" else "") ++ String.ofList (whole ++ '.' :: fraction) ++ "e"
        ++ toString exponent

/-- An exponent after its letter. -/
def exponent? (cs : List Char) : Option (Int × List Char) := do
  let (negative, cs) := sign cs
  let (ds, rest) ← digits? Char.isDigit cs
  let n : Int := Json.Number.ofDigits ds
  return (if negative then -n else n, rest)

/-- A number in decimal digits after its sign. -/
def decimalNumber? (negative : Bool) (cs : List Char) : Option (Json × List Char) := do
  let (whole, rest) ← wholeDigits? cs
  match rest with
  | '.' :: rest =>
    let (fraction, rest) ← digits? Char.isDigit rest
    match rest with
    | c :: after =>
      if c = 'e' || c = 'E' then
        let (exponent, rest) ← exponent? after
        return (← float? negative whole fraction exponent, rest)
      else return (← float? negative whole fraction 0, rest)
    | [] => return (← float? negative whole fraction 0, [])
  | c :: after =>
    if c = 'e' || c = 'E' then
      let (exponent, rest) ← exponent? after
      return (← float? negative whole ['0'] exponent, rest)
    else
      let n : Int := Json.Number.ofDigits whole
      return (← int64? (if negative then -n else n), rest)
  | [] =>
    let n : Int := Json.Number.ofDigits whole
    return (← int64? (if negative then -n else n), [])

/-- A number, from its sign or first character on. -/
def number? (cs : List Char) : Option (Json × List Char) :=
  match cs with
  | '0' :: 'x' :: rest => basedInteger? 16 rest
  | '0' :: 'o' :: rest => basedInteger? 8 rest
  | '0' :: 'b' :: rest => basedInteger? 2 rest
  | cs =>
    match sign cs with
    | (_, 'i' :: 'n' :: 'f' :: rest) => some (.null, rest)
    | (_, 'n' :: 'a' :: 'n' :: rest) => some (.null, rest)
    | (negative, rest) => decimalNumber? negative rest

def truth? : List Char → Option (Json × List Char)
  | 't' :: 'r' :: 'u' :: 'e' :: rest => some (.bool true, rest)
  | 'f' :: 'a' :: 'l' :: 's' :: 'e' :: rest => some (.bool false, rest)
  | _ => none

/-- A value that is not a string, an array or an inline table. -/
def scalar? (cs : List Char) : Option (Json × List Char) :=
  if looksLikeDate cs || looksLikeTime cs then
    (dateTime? cs).map fun rest =>
      (timeJson (String.ofList (cs.take (cs.length - rest.length))), rest)
  else (truth? cs).or (number? cs)

end Mentions.Toml
