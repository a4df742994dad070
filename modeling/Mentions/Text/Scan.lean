import Mentions.Text.CaseFold

/-! # Searching a window of units

`find?` is the least offset in a window of the text at which every unit agrees with the name that
is looked for. The window is given by signed bounds, because recorded offsets can be negative: a
negative bound, like an empty name, finds nothing.
-/

namespace Mentions.Text

/-- Whether two units agree: always when equal, and without case when their lowercases are. -/
def sameUnit (caseSensitive : Bool) (a b : UInt16) : Bool :=
  a == b || (!caseSensitive && lower a == lower b)

/-- Whether `hay` begins with units that agree with all of `needle`. -/
def beginsWith (caseSensitive : Bool) : (needle hay : List UInt16) → Bool
  | [], _ => true
  | _ :: _, [] => false
  | n :: ns, h :: hs => sameUnit caseSensitive h n && beginsWith caseSensitive ns hs

/-- The first place in `hay` where `needle` begins, counted from `index`. -/
def firstFrom? (caseSensitive : Bool) (needle : List UInt16) : List UInt16 → Nat → Option Nat
  | [], _ => none
  | h :: hs, index =>
    if beginsWith caseSensitive needle (h :: hs) then some index
    else firstFrom? caseSensitive needle hs (index + 1)

/-- The least offset from `start` on where `needle` lies in `hay` and ends by `stop`. -/
def find? (needle hay : List UInt16) (caseSensitive : Bool) (start stop : Int) : Option Nat :=
  if needle.isEmpty || start < 0 || stop < 0 then none
  else firstFrom? caseSensitive needle ((hay.take stop.toNat).drop start.toNat) start.toNat

end Mentions.Text
