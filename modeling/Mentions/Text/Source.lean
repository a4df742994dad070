import Mentions.Text.Utf16

/-! # Source texts and spans

A source text keeps its UTF-16 units beside the string, since a search reads them once per visit.
A span is an exact stretch of a text: an offset and a length in units. Spans are ordered by offset,
then by length. Slices clamp to the text. A position is a line and a column, both from zero, the
column in units.
-/

namespace Mentions

structure Span where
  offset : Nat
  length : Nat
  deriving DecidableEq, Repr

namespace Span

/-- The offset just after the span. -/
def stop (s : Span) : Nat := s.offset + s.length

def isEmpty (s : Span) : Bool := s.length == 0

def order (a b : Span) : Ordering :=
  (compare a.offset b.offset).then (compare a.length b.length)

end Span

structure SourceText where
  text : String
  units : List UInt16
  units_eq : units = Text.units text

/-- A line and a column, both counted from zero. -/
structure Position where
  line : Nat
  character : Nat
  deriving DecidableEq, Repr

namespace Position

def origin : Position := ⟨0, 0⟩

/-- The position after one more unit: a line feed starts a new line. -/
def advance (p : Position) (u : UInt16) : Position :=
  if u = 10 then ⟨p.line + 1, 0⟩ else ⟨p.line, p.character + 1⟩

end Position

namespace SourceText

def ofString (s : String) : SourceText := ⟨s, Text.units s, rfl⟩

/-- The length in units. -/
def length (t : SourceText) : Nat := t.units.length

def isEmpty (t : SourceText) : Bool := t.units.isEmpty

/-- The text of `length` units from `offset` on, as far as the source reaches. -/
def slice (t : SourceText) (offset length : Nat) : String :=
  String.ofList (Text.decode ((t.units.drop offset).take length))

/-- The position of an offset; an offset past the end is at the end. -/
def position (t : SourceText) (offset : Nat) : Position :=
  (t.units.take offset).foldl Position.advance Position.origin

/-- The positions of both ends of a span. -/
def range (t : SourceText) (s : Span) : Position × Position :=
  (t.position s.offset, t.position s.stop)

end SourceText
end Mentions
