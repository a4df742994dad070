import Mentions.Mention
import Mentions.Level
import Mentions.Visit.Dump

/-! # Log notices

Every record of the log is a value that says what happened, with a level and a text.
-/

namespace Mentions

/-- Why a node of the searched type is no reference to it. -/
inductive SkipReason where
  | declaration
  | scriptClass
  | scriptConstructor
  | noReference
  deriving DecidableEq, Repr

def SkipReason.text : SkipReason → String
  | declaration => "declaration site"
  | scriptClass => "script class"
  | scriptConstructor => "synthetic script constructor"
  | noReference => "not a type reference"

inductive Notice where
  | skipped (kind typeName : String) (reason : SkipReason)
  /-- The name does not occur between the offsets. -/
  | absent (typeName : String) (start stop : Int)
  /-- There is no text, and recorded offsets are used. -/
  | noSource (handle typeName : String)
  | taken (kind typeName : String) (span : Span)
  | refused (handle : String) (refusal : Refusal)
  | replaying (count : Nat) (target : String)
  | mentionCount (count : Nat)
  | failed (error : Dump.LoadError)
  deriving DecidableEq, Repr

namespace Notice

def level : Notice → Level
  | skipped .. | absent .. | taken .. => .debug
  | noSource .. => .warn
  | refused .. | failed .. => .error
  | replaying .. | mentionCount .. => .info

def message : Notice → String
  | skipped kind typeName reason =>
    "[typeref] skipping " ++ kind ++ " for '" ++ typeName ++ "': " ++ reason.text
  | absent typeName start stop =>
    "[typeref] '" ++ typeName ++ "' not present in " ++ toString start ++ "..=" ++ toString stop
      ++ ", likely aliased"
  | noSource handle typeName =>
    "[typeref] no source for " ++ handle ++ ", using raw offsets of '" ++ typeName ++ "'"
  | taken kind typeName span =>
    "[typeref] " ++ kind ++ " match for '" ++ typeName ++ "' at " ++ toString span.offset ++ "+"
      ++ toString span.length
  | refused handle refusal =>
    "Error accepting search match for " ++ handle ++ ": " ++ refusal.message
  | replaying count target =>
    "Replaying " ++ toString count ++ " events for '" ++ target ++ "'"
  | mentionCount count => toString count ++ " matches"
  | failed error => error.message

/-- A character in a line of the log. Those that can steer a terminal are written as escapes. -/
def shownChar (c : Char) : List Char :=
  let digits := [Nat.digitChar (c.toNat / 16), Nat.digitChar (c.toNat % 16)]
  if c.toNat ∈ [0x07, 0x08, 0x0C, 0x1B, 0x7F] then '\\' :: 'x' :: digits
  else if 0x80 ≤ c.toNat ∧ c.toNat ≤ 0x9F then '\\' :: 'u' :: '\x7b' :: digits ++ ['\x7d']
  else [c]

/-- A message as the log shows it. -/
def shown (message : String) : String := String.ofList (message.toList.flatMap shownChar)

end Notice
end Mentions
