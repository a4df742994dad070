import Mentions.Json

/-! # Tables of a TOML document

A table is opened by a header, by dotted keys, or as the way to a table further in. It can be opened
by a header once, dotted keys go only through tables that such keys opened, and the way to a table
leads through the last element of an array of tables.
-/

namespace Mentions.Toml

/-- What opened a table. -/
inductive Origin where
  | header
  | dotted
  /-- It lies on the way to a table that was opened by a header. -/
  | implied
  deriving DecidableEq

inductive Entry where
  | value (v : Json)
  | table (origin : Origin) (entries : List (String × Entry))
  /-- An array of tables: the finished ones and the entries of the last. -/
  | tables (done : List Json) (last : List (String × Entry))

abbrev Entries := List (String × Entry)

mutual

/-- A finished entry. -/
def Entry.toJson : Entry → Json
  | .value v => v
  | .table _ entries => .object (entriesToJson entries)
  | .tables done last => .array (done ++ [.object (entriesToJson last)])

def entriesToJson : List (String × Entry) → List (String × Json)
  | [] => []
  | (key, e) :: rest => (key, e.toJson) :: entriesToJson rest

end

namespace Entries

/-- Puts another entry under a key that is there. -/
def replace (key : String) (e : Entry) (entries : Entries) : Entries :=
  entries.map fun (k, old) => if k == key then (k, e) else (k, old)

def append (key : String) (e : Entry) (entries : Entries) : Entries := entries ++ [(key, e)]

/-- Sets a value under a dotted key, given as the way to it and its last part. -/
def put (key : String) (v : Json) : List String → Entries → Option Entries
  | [], entries =>
    match entries.lookup key with
    | none => some (entries.append key (.value v))
    | some _ => none
  | part :: way, entries =>
    match entries.lookup part with
    | none => (put key v way []).map fun inner => entries.append part (.table .dotted inner)
    | some (.table .dotted inner) =>
      (put key v way inner).map fun inner => entries.replace part (.table .dotted inner)
    | some (.table .implied inner) =>
      if way.isEmpty then none
      else (put key v way inner).map fun inner => entries.replace part (.table .implied inner)
    | some (.tables done last) =>
      if way.isEmpty then none
      else (put key v way last).map fun last => entries.replace part (.tables done last)
    | some _ => none

/-- Changes the entries of a table, given the way to it. The tables on the way are made where they
are missing. -/
def reach (change : Entries → Option Entries) : List String → Entries → Option Entries
  | [], entries => change entries
  | part :: way, entries =>
    match entries.lookup part with
    | none => (reach change way []).map fun inner => entries.append part (.table .implied inner)
    | some (.table origin inner) =>
      (reach change way inner).map fun inner => entries.replace part (.table origin inner)
    | some (.tables done last) =>
      (reach change way last).map fun last => entries.replace part (.tables done last)
    | some (.value _) => none

/-- Opens a table by a header. A table that was only implied until then becomes the last one. -/
def openTable (key : String) (entries : Entries) : Option Entries :=
  match entries.lookup key with
  | none => some (entries.append key (.table .header []))
  | some (.table .implied inner) =>
    some (Entries.append key (.table .header inner) (entries.filter (·.1 != key)))
  | some _ => none

/-- Opens the next element of an array of tables. -/
def openElement (key : String) (entries : Entries) : Option Entries :=
  match entries.lookup key with
  | none => some (entries.append key (.tables [] []))
  | some (.tables done last) =>
    some (entries.replace key (.tables (done ++ [.object (entriesToJson last)]) []))
  | some _ => none

end Entries
end Mentions.Toml
