import Mentions.Level

/-! # Settings

The settings of a search in four sections: which nodes count, how the text is searched, which
consumers get every match as accurate, and how much is logged. The marker of these consumers is kept
without blanks at either end. A blank is a character with the Unicode property White_Space; the zero
width space U+200B and the separators U+001C to U+001F do not have it.
-/

namespace Mentions

namespace Text

/-- The characters with the property White_Space. -/
def isBlank (c : Char) : Bool :=
  let n := c.toNat
  (0x09 ≤ n && n ≤ 0x0D) || n == 0x20 || n == 0x85 || n == 0xA0 || n == 0x1680 ||
    (0x2000 ≤ n && n ≤ 0x200A) || n == 0x2028 || n == 0x2029 || n == 0x202F || n == 0x205F ||
    n == 0x3000

/-- The characters without the blanks at either end. -/
def trimChars (cs : List Char) : List Char :=
  ((cs.dropWhile isBlank).reverse.dropWhile isBlank).reverse

/-- The text without the blanks at either end. -/
def trim (s : String) : String := String.ofList (trimChars s.toList)

end Text

/-- The name of the settings section in a shared payload. -/
def settingsKey : String := "typeref-search"

def settingsFileName : String := "typeref-search.toml"

def defaultMarker : String := "refactoring"

structure Settings where
  /-- Whether constructors count. The constructed class is visited as a type anyway. -/
  includeConstructors : Bool
  /-- Whether the text is searched for the exact case. -/
  caseSensitive : Bool
  /-- Whether recorded offsets are used where no text is loaded. -/
  fallbackToOffsets : Bool
  /-- Consumers whose module contains this text get every match as accurate. -/
  alwaysAccurateMarker : String
  level : Level
  deriving DecidableEq, Repr

namespace Settings

protected def default : Settings := ⟨false, false, true, defaultMarker, .info⟩

instance : Inhabited Settings := ⟨Settings.default⟩

/-- A marker without surrounding blanks, or the default where nothing is left. -/
def cleanMarker (marker : String) : String :=
  let trimmed := Text.trim marker
  if trimmed = "" then defaultMarker else trimmed

def normalize (s : Settings) : Settings :=
  { s with alwaysAccurateMarker := cleanMarker s.alwaysAccurateMarker }

/-- The logging threshold, written for a log filter. -/
def filterDirective (s : Settings) : String := "typeref_search=" ++ s.level.name

end Settings
end Mentions
