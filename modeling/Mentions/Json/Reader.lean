import Mentions.Json.Token

/-! # Reading JSON text

The reader is a machine that takes one token at a time and keeps the arrays and objects it is
inside of as a stack of frames. The text must be exactly one value, with nothing after it.
-/

namespace Mentions.Json

/-- An array or object part way through, its parts in reverse. The member name of an object is the
one whose value is being read; a name can be unreadable, which makes the object unreadable. -/
inductive Frame where
  | array (level : Nat) (done : List Json)
  | object (level : Nat) (done : List (Option String × Json)) (key : Option String)

def Frame.level : Frame → Nat
  | array level _ => level
  | object level _ _ => level

/-- What the reader expects next. -/
inductive ReadState where
  | value (stack : List Frame)
  /-- The first item of an array, or its end. -/
  | firstItem (level : Nat) (stack : List Frame)
  /-- A comma or the end of an array. -/
  | afterItem (level : Nat) (done : List Json) (stack : List Frame)
  /-- The first name of an object, or its end. -/
  | firstName (level : Nat) (stack : List Frame)
  | memberName (level : Nat) (done : List (Option String × Json)) (stack : List Frame)
  | colon (level : Nat) (done : List (Option String × Json)) (key : Option String)
      (stack : List Frame)
  /-- A comma or the end of an object. -/
  | afterMember (level : Nat) (done : List (Option String × Json)) (stack : List Frame)
  | finished (v : Json)

namespace ReadState

/-- The level of an array or object that begins inside these frames. -/
def nextLevel (stack : List Frame) : Nat := (stack.head?.map Frame.level).getD 0 + 1

/-- A value is complete and goes to the frame around it. -/
def give (v : Json) : List Frame → ReadState
  | [] => finished v
  | .array level done :: stack => afterItem level (v :: done) stack
  | .object level done key :: stack => afterMember level ((key, v) :: done) stack

/-- An array or object is complete, if it is not nested too deep. -/
def giveNested (level : Nat) (v : Json) (stack : List Frame) : ReadState :=
  give (if level ≤ maxLevel then v else unreadable) stack

def arrayValue (done : List Json) : Json := .array done.reverse

/-- An object, if all of its names are texts. -/
def objectValue (done : List (Option String × Json)) : Json :=
  match done.reverse.mapM fun (key, v) => key.map (·, v) with
  | some members => .object members
  | none => unreadable

def beginValue? (stack : List Frame) : Token → Option ReadState
  | .scalar v => some (give v stack)
  | .openArray => some (firstItem (nextLevel stack) stack)
  | .openObject => some (firstName (nextLevel stack) stack)
  | _ => none

/-- A member name; the outer `none` is no name at all. -/
def name? : Token → Option (Option String)
  | .scalar (.string s) => some (some s)
  | .scalar .unreadable => some none
  | _ => none

def beginName? (level : Nat) (done : List (Option String × Json)) (stack : List Frame)
    (t : Token) : Option ReadState :=
  (name? t).map (colon level done · stack)

def step (s : ReadState) (t : Token) : Option ReadState :=
  match s with
  | value stack => beginValue? stack t
  | firstItem level stack =>
    match t with
    | .closeArray => some (giveNested level (arrayValue []) stack)
    | t => beginValue? (.array level [] :: stack) t
  | afterItem level done stack =>
    match t with
    | .comma => some (value (.array level done :: stack))
    | .closeArray => some (giveNested level (arrayValue done) stack)
    | _ => none
  | firstName level stack =>
    match t with
    | .closeObject => some (giveNested level (objectValue []) stack)
    | t => beginName? level [] stack t
  | memberName level done stack => beginName? level done stack t
  | colon level done key stack =>
    match t with
    | .colon => some (value (.object level done key :: stack))
    | _ => none
  | afterMember level done stack =>
    match t with
    | .comma => some (memberName level done stack)
    | .closeObject => some (giveNested level (objectValue done) stack)
    | _ => none
  | finished _ => none

end ReadState

def ofTokens? (ts : List Token) : Option Json :=
  match ts.foldlM ReadState.step (.value []) with
  | some (.finished v) => some v
  | _ => none

/-- The value of a text, if the text is well formed. -/
def parse? (text : String) : Option Json := (tokens? text.toList).bind ofTokens?

end Mentions.Json
