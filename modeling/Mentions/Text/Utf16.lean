/-! # UTF-16 code units of a text

Offsets recorded by the parsers whose visits we search count UTF-16 code units, so every text is
also read as a list of units. A character below U+10000 is one unit and any other is a surrogate
pair. Decoding is lossy: half a pair that stands alone becomes U+FFFD.
-/

namespace Mentions.Text

/-- The units of one character: itself, or a leading and a trailing surrogate. -/
def charUnits (c : Char) : List UInt16 :=
  if c.toNat < 0x10000 then [c.toNat.toUInt16]
  else
    let above := c.toNat - 0x10000
    [(0xD800 + above / 0x400).toUInt16, (0xDC00 + above % 0x400).toUInt16]

def units (s : String) : List UInt16 := s.toList.flatMap charUnits

/-- The first half of a surrogate pair. -/
def isLeading (u : UInt16) : Bool := 0xD800 ≤ u.toNat && u.toNat < 0xDC00

/-- The second half of a surrogate pair. -/
def isTrailing (u : UInt16) : Bool := 0xDC00 ≤ u.toNat && u.toNat < 0xE000

def isSurrogate (u : UInt16) : Bool := isLeading u || isTrailing u

/-- The character that a surrogate pair stands for. -/
def joinPair (lead trail : UInt16) : Char :=
  Char.ofNat (0x10000 + (lead.toNat - 0xD800) * 0x400 + (trail.toNat - 0xDC00))

/-- What is written for half a pair that stands alone. -/
def replacement : Char := Char.ofNat 0xFFFD

/-- The character of a unit that belongs to no pair. -/
def loneChar (u : UInt16) : Char :=
  if isSurrogate u then replacement else Char.ofNat u.toNat

/-- Reads units as characters; half a pair that stands alone becomes U+FFFD. -/
def decode : List UInt16 → List Char
  | [] => []
  | [u] => [loneChar u]
  | u :: v :: rest =>
    if isLeading u && isTrailing v then joinPair u v :: decode rest
    else loneChar u :: decode (v :: rest)

/-- Reads units as characters, and refuses half a pair that stands alone. -/
def decodeStrict? : List UInt16 → Option (List Char)
  | [] => some []
  | [u] => if isSurrogate u then none else some [Char.ofNat u.toNat]
  | u :: v :: rest =>
    if isLeading u && isTrailing v then (decodeStrict? rest).map (joinPair u v :: ·)
    else if isSurrogate u then none
    else (decodeStrict? (v :: rest)).map (Char.ofNat u.toNat :: ·)

def unitLength (s : String) : Nat := (units s).length

theorem units_nil : units "" = [] := rfl

end Mentions.Text
