import Mentions.Command.Arguments
import Mentions.Mention
import Mentions.Search
import Mentions.Settings.File

/-! # Runs of the program

A run loads the settings, the source and the recorded visits, replays the visits into a search and
reports what was found. What it prints is part of its outcome, which the outermost layer writes out.
-/

namespace Mentions.Command

/-- What a run shows once its settings are loaded. -/
structure Shown where
  /-- What the log lets through. -/
  threshold : Level
  notices : List Notice
  reports : List Report
  succeeded : Bool

inductive Outcome where
  /-- The arguments ask for no run. -/
  | stopped (stop : Stop)
  | badSettings (error : SettingsError)
  | badLogFile (path : String) (error : ReadError)
  | ran (shown : Shown)

variable {m : Type → Type} [Monad m]

/-- The settings file that is named, else the nearest one to the source or the visits, else the
defaults. -/
def loadSettings (files : Files m) (a : Arguments) : m (Except SettingsError Settings) := do
  let path ← match a.config with
    | some path => pure (some path)
    | none => Settings.discover files (a.source.getD a.events)
  match path with
  | some path => Settings.load files path
  | none => return .ok .default

/-- The name of the log file when the path has none. -/
def logFileName : String := "typeref-search.log"

def logFileParts (path : String) : String × String :=
  ((Path.parent? path).getD ".", (Path.fileName? path).getD logFileName)

/-- Makes sure that the log file can be appended to, if one is named. -/
def prepareLog (files : Files m) (path : Option String) : m (Except ReadError Unit) := do
  match path with
  | none => return .ok ()
  | some path =>
    let (dir, name) := logFileParts path
    files.prepare dir name

def loadSource (files : Files m) (path : Option String) :
    m (Except Dump.LoadError (Option SourceUnit)) := do
  match path with
  | none => return .ok none
  | some path =>
    match ← Dump.loadUnit files path with
    | .error e => return .error e
    | .ok unit => return .ok (some unit)

/-- The source unit, if one is named, and then the visits. -/
def loadVisits (files : Files m) (a : Arguments) : m (Except Dump.LoadError (List Visit)) := do
  match ← loadSource files a.source with
  | .error e => return .error e
  | .ok unit => Dump.load files a.events unit

def Arguments.query (a : Arguments) : Query :=
  let q := ((Query.ofName a.name).withCaseSensitive a.caseSensitive).withCamelCase a.camelCase
  match a.qualifier with
  | some qualifier => q.qualified qualifier
  | none => q

def Arguments.threshold (a : Arguments) (s : Settings) : Level :=
  if a.verbose then .debug else s.level

/-- Replays visits into a search that keeps every mention. -/
def search (q : Query) (s : Settings) (visits : List Visit) : Search.Progress (Array Mention) :=
  let search := Search.ofQuery q collector.origin defaultParticipant s
  (replay (search.visitor collector) (Search.begin #[]) visits).2

def shownFor (a : Arguments) (s : Settings) : Except Dump.LoadError (List Visit) → Shown
  | .error e => ⟨a.threshold s, [.failed e], [], false⟩
  | .ok visits =>
    let found := search a.query s visits
    let mentions := found.state.sink.toList
    { threshold := a.threshold s
      notices := .replaying visits.length a.query.target :: found.log.toList
        ++ [.mentionCount mentions.length]
      reports := mentions.map Report.ofMention
      succeeded := true }

/-- A run with arguments that were understood. -/
def runWith (files : Files m) (a : Arguments) : m Outcome := do
  match ← loadSettings files a with
  | .error e => return .badSettings e
  | .ok s =>
    match ← prepareLog files a.logFile with
    | .error e => return .badLogFile (a.logFile.getD "") e
    | .ok () => return .ran (shownFor a s (← loadVisits files a))

def run (files : Files m) (args : List String) : m Outcome := do
  match Arguments.parse args with
  | .error stop => return .stopped stop
  | .ok a => runWith files a

def versionLine : String := "typeref-search 0.1.0"

def helpLines : List String :=
  ["Replay recorded visitor events and print type-reference matches as JSON lines",
    "",
    "Usage: typeref-search [OPTIONS] --events <EVENTS> --name <NAME>",
    "",
    "Options:",
    "      --events <EVENTS>        JSON array of recorded visitor events",
    "      --source <SOURCE>        Source text the events were recorded from",
    "      --name <NAME>            Simple name of the searched type",
    "      --qualifier <QUALIFIER>  Package qualification of the searched type",
    "      --case-sensitive",
    "      --camel-case",
    "      --config <CONFIG>        Settings file; defaults to the nearest one",
    "  -v, --verbose",
    "      --log-file <LOG_FILE>",
    "  -h, --help                   Print help",
    "  -V, --version                Print version"]

def Shown.logged (s : Shown) : List Notice := s.notices.filter (s.threshold.passes ·.level)

namespace Outcome

def exitCode : Outcome → UInt32
  | stopped (.usage _) => 2
  | stopped _ => 0
  | badSettings _ => 1
  | badLogFile .. => 101
  | ran shown => if shown.succeeded then 0 else 1

def output : Outcome → List String
  | stopped .version => [versionLine]
  | stopped .help => helpLines
  | ran shown => shown.reports.map Report.line
  | _ => []

def log : Outcome → List Notice
  | ran shown => shown.logged
  | _ => []

/-- The lines of the standard error that are not log entries. -/
def complaints : Outcome → List String
  | stopped (.usage reason) => ["error: " ++ reason]
  | badSettings e => [e.message]
  | badLogFile path e => ["failed to create log file " ++ path ++ ": " ++ e.message]
  | _ => []

end Outcome
end Mentions.Command
