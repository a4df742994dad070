import Mentions.Json

/-! # Queries

A query names the type whose mentions are wanted, by simple name and qualification. The two flags
are kept for the host of a search; the name is always compared exactly.
-/

namespace Mentions

structure Query where
  simpleName : Option String
  qualification : Option String
  caseSensitive : Bool
  camelCase : Bool
  deriving DecidableEq, Repr

namespace Query

/-- A query that names nothing. -/
def blank : Query := ⟨none, none, false, false⟩

/-- A query for a simple name. -/
def ofName (name : String) : Query := ⟨some name, none, true, false⟩

def qualified (q : Query) (qualification : String) : Query :=
  { q with qualification := some qualification }

def withCaseSensitive (q : Query) (b : Bool) : Query := { q with caseSensitive := b }

def withCamelCase (q : Query) (b : Bool) : Query := { q with camelCase := b }

/-- The qualified name that a type must have. An empty qualification counts as none. -/
def target (q : Query) : String :=
  let simple := q.simpleName.getD ""
  match q.qualification with
  | some qualifier => if qualifier = "" then simple else qualifier ++ "." ++ simple
  | none => simple

open Json (fields? withDefault nullable)

def ofJson? (v : Json) : Option Query :=
  match fields? ["simpleName", "qualification", "caseSensitive", "camelCase"] v with
  | some [simpleName, qualification, caseSensitive, camelCase] => do
    return ⟨← nullable Json.string? simpleName, ← nullable Json.string? qualification,
      ← withDefault false Json.bool? caseSensitive, ← withDefault false Json.bool? camelCase⟩
  | _ => none

def toJson (q : Query) : Json :=
  .object [("simpleName", Json.ofOption .string q.simpleName),
    ("qualification", Json.ofOption .string q.qualification),
    ("caseSensitive", .bool q.caseSensitive), ("camelCase", .bool q.camelCase)]

end Query
end Mentions
