/-! # JSON values

Members of an object keep their order and may repeat; who reads an object decides what a repeated
name means. A literal can be well formed and still denote nothing: a text with half a surrogate
pair, a number beyond the doubles, or nesting deeper than the limit. Such a literal is `unreadable`
and is an error only where its value is used.
-/

namespace Mentions

inductive Json where
  | null
  | bool (b : Bool)
  /-- A number written as an integer, minus zero excepted. -/
  | integer (n : Int)
  /-- Any other number, as it is written. -/
  | decimal (literal : String)
  | string (s : String)
  | array (items : List Json)
  | object (members : List (String × Json))
  | unreadable
  deriving Repr, Inhabited

namespace Json

mutual

/-- Whether no part of the value is unreadable. -/
def sound : Json → Bool
  | unreadable => false
  | array items => soundItems items
  | object members => soundMembers members
  | _ => true

def soundItems : List Json → Bool
  | [] => true
  | v :: rest => v.sound && soundItems rest

def soundMembers : List (String × Json) → Bool
  | [] => true
  | (_, v) :: rest => v.sound && soundMembers rest

end

mutual

/-- The number of levels of arrays and objects. -/
def height : Json → Nat
  | array items => heightItems items + 1
  | object members => heightMembers members + 1
  | _ => 0

def heightItems : List Json → Nat
  | [] => 0
  | v :: rest => max v.height (heightItems rest)

def heightMembers : List (String × Json) → Nat
  | [] => 0
  | (_, v) :: rest => max v.height (heightMembers rest)

end

/-- Nesting beyond this many levels is unreadable. -/
def maxLevel : Nat := 127

def bool? : Json → Option Bool
  | bool b => some b
  | _ => none

def string? : Json → Option String
  | string s => some s
  | _ => none

def items? : Json → Option (List Json)
  | array items => some items
  | _ => none

/-- The member of a name, if the object has exactly one; `none` where the name is repeated. -/
def member? (members : List (String × Json)) (name : String) : Option (Option Json) :=
  match members.filter (·.1 == name) with
  | [] => some none
  | [(_, v)] => some (some v)
  | _ => none

/-- The fields of a record by name, present or not. A record is an object, in which no field name
may repeat and other names do not count, or an array of the fields in order, cut short or not. -/
def fields? (names : List String) : Json → Option (List (Option Json))
  | object members => names.mapM (member? members)
  | array items =>
    if items.length ≤ names.length then
      some (items.map some ++ List.replicate (names.length - items.length) none)
    else none
  | _ => none

/-- The name of a case without content: a string, or an object with that one name and null. -/
def case? : Json → Option String
  | string s => some s
  | object [(name, null)] => some name
  | _ => none

/-- A field that must be present. -/
def required {α : Type} (decode : Json → Option α) (field : Option Json) : Option α :=
  field.bind decode

/-- A field with a value for when it is absent. -/
def withDefault {α : Type} (default : α) (decode : Json → Option α) : Option Json → Option α
  | none => some default
  | some v => decode v

/-- A field that may be absent or null. -/
def nullable {α : Type} (decode : Json → Option α) : Option Json → Option (Option α)
  | none => some none
  | some null => some none
  | some v => (decode v).map some

def integerIn? (low high : Int) : Json → Option Int
  | integer n => if low ≤ n ∧ n ≤ high then some n else none
  | _ => none

def int32? (v : Json) : Option Int32 :=
  (v.integerIn? (-2147483648) 2147483647).map Int32.ofInt

def nat64? (v : Json) : Option Nat :=
  (v.integerIn? 0 18446744073709551615).map Int.toNat

def ofOption {α : Type} (encode : α → Json) : Option α → Json
  | none => null
  | some a => encode a

end Json
end Mentions
