/-! # Command line arguments

Options take a value, after an equals sign or as the next argument, and flags take none. Each may
be given once. Options for paths take no empty value, and a separate value cannot look like an
option, except a lone minus. One-letter flags may be run together.
-/

namespace Mentions.Command

/-- What the program is asked to do. -/
structure Arguments where
  events : String
  source : Option String
  name : String
  qualifier : Option String
  caseSensitive : Bool
  camelCase : Bool
  config : Option String
  verbose : Bool
  logFile : Option String
  deriving DecidableEq, Repr

inductive ValueOption where
  | events
  | source
  | name
  | qualifier
  | config
  | logFile
  deriving DecidableEq, Repr

inductive Flag where
  | caseSensitive
  | camelCase
  | verbose
  deriving DecidableEq, Repr

/-- Why the arguments are no run of the program. -/
inductive Stop where
  | version
  | help
  | usage (reason : String)
  deriving DecidableEq, Repr

/-- What a name after two minuses means. -/
inductive Word where
  | option (o : ValueOption)
  | flag (f : Flag)
  | version
  | help
  deriving DecidableEq, Repr

def word? (name : String) : Option Word :=
  match name with
  | "events" => some (.option .events)
  | "source" => some (.option .source)
  | "name" => some (.option .name)
  | "qualifier" => some (.option .qualifier)
  | "config" => some (.option .config)
  | "log-file" => some (.option .logFile)
  | "case-sensitive" => some (.flag .caseSensitive)
  | "camel-case" => some (.flag .camelCase)
  | "verbose" => some (.flag .verbose)
  | "version" => some .version
  | "help" => some .help
  | _ => none

def ValueOption.isPath : ValueOption → Bool
  | events | source | config | logFile => true
  | name | qualifier => false

structure Given where
  values : List (ValueOption × String)
  flags : List Flag

namespace Given

def setValue (g : Given) (o : ValueOption) (value : String) : Except Stop Given :=
  if (g.values.lookup o).isSome then .error (.usage "an option is given twice")
  else if o.isPath && value = "" then .error (.usage "a path is empty")
  else .ok { g with values := (o, value) :: g.values }

def setFlag (g : Given) (f : Flag) : Except Stop Given :=
  if f ∈ g.flags then .error (.usage "a flag is given twice")
  else .ok { g with flags := f :: g.flags }

/-- One-letter flags run together. -/
def setLetters (g : Given) : List Char → Except Stop Given
  | [] => .ok g
  | c :: rest =>
    match c with
    | 'v' => do (← g.setFlag .verbose).setLetters rest
    | 'V' => .error .version
    | 'h' => .error .help
    | _ => .error (.usage "an unknown flag")

/-- The arguments, if those that are required were given. -/
def finish (g : Given) : Except Stop Arguments :=
  match g.values.lookup .events, g.values.lookup .name with
  | some events, some name => .ok {
      events, name
      source := g.values.lookup .source
      qualifier := g.values.lookup .qualifier
      caseSensitive := g.flags.contains .caseSensitive
      camelCase := g.flags.contains .camelCase
      config := g.values.lookup .config
      verbose := g.flags.contains .verbose
      logFile := g.values.lookup .logFile }
  | _, _ => .error (.usage "a required option is missing")

end Given

/-- A minus followed by anything begins an option. -/
def looksLikeOption (cs : List Char) : Bool :=
  match cs with
  | '-' :: _ :: _ => true
  | _ => false

/-- The name and the value around the first equals sign. -/
def splitAtEquals (cs : List Char) : String × Option String :=
  match cs.dropWhile (· != '=') with
  | _ :: value => (String.ofList (cs.takeWhile (· != '=')), some (String.ofList value))
  | [] => (String.ofList cs, none)

/-- Reads arguments after those already given. -/
def parseFrom (g : Given) : List String → Except Stop Arguments
  | [] => g.finish
  | a :: rest =>
    match a.toList with
    | ['-', '-'] => if rest.isEmpty then g.finish else .error (.usage "an unexpected argument")
    | '-' :: '-' :: cs =>
      let (name, attached) := splitAtEquals cs
      match word? name, attached with
      | some (.option o), some value => do parseFrom (← g.setValue o value) rest
      | some (.option o), none =>
        match rest with
        | [] => .error (.usage "a value is missing")
        | value :: rest =>
          if looksLikeOption value.toList then .error (.usage "a value is missing")
          else do parseFrom (← g.setValue o value) rest
      | some (.flag f), none => do parseFrom (← g.setFlag f) rest
      | some .version, none => .error .version
      | some .help, none => .error .help
      | some _, some _ => .error (.usage "a flag takes no value")
      | none, _ => .error (.usage "an unknown option")
    | '-' :: c :: cs => do parseFrom (← g.setLetters (c :: cs)) rest
    | _ => .error (.usage "an unexpected argument")

def Arguments.parse (args : List String) : Except Stop Arguments := parseFrom ⟨[], []⟩ args

end Mentions.Command
