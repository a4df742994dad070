import Mentions.Json

/-! # Numbers in JSON text

A literal is an optional minus, an integer without leading zeros, and optionally a fraction and an
exponent. It denotes a double, so one too large is unreadable. Its size is taken from a significand
of at most 64 bits and a power of ten, each rounded to a double before they are multiplied.
-/

namespace Mentions.Json.Number

def digit (c : Char) : Nat := c.toNat - '0'.toNat

/-- The value of decimal digits, most significant first. -/
def ofDigits (cs : List Char) : Nat := cs.foldl (fun n c => 10 * n + digit c) 0

/-- The parts of a literal: sign, digits before and after the point, exponent. -/
structure Literal where
  negative : Bool
  whole : List Char
  fraction : List Char
  exponent : Option Int
  deriving DecidableEq

/-- An exponent part, or nothing at the end of the literal. -/
def exponent? : List Char → Option (Option Int)
  | [] => some none
  | e :: cs =>
    if e = 'e' || e = 'E' then
      let (negative, ds) := match cs with
        | '-' :: ds => (true, ds)
        | '+' :: ds => (false, ds)
        | ds => (false, ds)
      if !ds.isEmpty && ds.all Char.isDigit then
        some (some (if negative then -(ofDigits ds : Int) else ofDigits ds))
      else none
    else none

def literal? (cs : List Char) : Option Literal :=
  let (negative, cs) := match cs with
    | '-' :: rest => (true, rest)
    | cs => (false, cs)
  let whole := cs.takeWhile Char.isDigit
  if whole.isEmpty || (whole.head? = some '0' && 1 < whole.length) then none
  else
    match cs.dropWhile Char.isDigit with
    | '.' :: rest =>
      let fraction := rest.takeWhile Char.isDigit
      if fraction.isEmpty then none
      else (exponent? (rest.dropWhile Char.isDigit)).map (⟨negative, whole, fraction, ·⟩)
    | rest => (exponent? rest).map (⟨negative, whole, [], ·⟩)

/-- The nearest number with a significand of 53 bits; of two equally near, the even one. -/
def roundDouble (n : Nat) : Nat :=
  if n < Nat.pow 2 53 then n
  else
    let unit := Nat.pow 2 (n.log2 - 52)
    let quotient := n / unit
    let rest := n % unit
    if unit < 2 * rest || (2 * rest == unit && quotient % 2 == 1) then (quotient + 1) * unit
    else quotient * unit

/-- Appends digits to a significand while it stays below 2^64, and counts the appended ones. -/
def absorb : Nat → List Char → Nat × Nat
  | significand, [] => (significand, 0)
  | significand, c :: cs =>
    let next := 10 * significand + digit c
    if next < Nat.pow 2 64 then
      let (result, count) := absorb next cs
      (result, count + 1)
    else (significand, 0)

def Literal.tooLarge (l : Literal) : Bool :=
  let (start, kept) := absorb 0 l.whole
  let (significand, places) := absorb start l.fraction
  let power : Int := (l.whole.length - kept : Nat) - (places : Int) + l.exponent.getD 0
  if significand = 0 || power ≤ 0 then false
  else if 308 < power then true
  else Nat.pow 2 1024 ≤
    roundDouble (roundDouble significand * roundDouble (Nat.pow 10 power.toNat))

/-- The value of a literal. Minus zero is no integer. -/
def Literal.value (l : Literal) (text : List Char) : Json :=
  if l.tooLarge then .unreadable
  else if l.fraction.isEmpty && l.exponent.isNone && !(l.negative && ofDigits l.whole = 0) then
    .integer (if l.negative then -(ofDigits l.whole : Int) else ofDigits l.whole)
  else .decimal (String.ofList text)

/-- The value of a number's text, if it is a literal. -/
def read? (cs : List Char) : Option Json := (literal? cs).map (·.value cs)

end Mentions.Json.Number
