import Mentions.Command.Run

/-! # The program

The outermost layer: it supplies the actions of the real file system, writes out what a run shows,
and ends with the exit code of the outcome.
-/

namespace Mentions

/-- Why the operating system refused. -/
def readErrorOf (e : IO.Error) : ReadError :=
  match e with
  | .noFileOrDirectory .. => .notFound
  | .inappropriateType _ code text | .otherError code text | .permissionDenied _ code text
  | .resourceExhausted _ code text | .invalidArgument _ code text =>
    if code = 2 then .notFound
    else if code = 20 then .notDirectory
    else if code = 21 then .isDirectory
    else if code = 36 then .nameTooLong
    else .other (text ++ " (os error " ++ toString code ++ ")")
  | e => .other (toString e)

/-- The bytes of a file. -/
def readBytes (path : String) : IO (Except ReadError ByteArray) := do
  if path.contains (Char.ofNat 0) then return .error .nulInPath
  try
    return .ok (← IO.FS.readBinFile path)
  catch e => return .error (readErrorOf e)

/-- The actions of the real file system. -/
def systemFiles : Files IO where
  isFile path := do
    match ← readBytes path with
    | .ok _ => return true
    | .error _ => return false
  read path := do
    match ← readBytes path with
    | .error e => return .error e
    | .ok content =>
      match String.fromUTF8? content with
      | some text => return .ok text
      | none => return .error .invalidUtf8
  canonical path := do
    try
      return some (toString (← IO.FS.realPath path))
    catch _ => return none
  prepare dir name := do
    try
      if dir != "" then IO.FS.createDirAll dir
      IO.FS.withFile (Path.join dir name) .append fun _ => return .ok ()
    catch e => return .error (readErrorOf e)

/-- A line of the log: the level and the message. -/
def logLine (n : Notice) : String :=
  let tag := n.level.tag
  String.ofList (List.replicate (5 - tag.length) ' ') ++ tag ++ " " ++ Notice.shown n.message

/-- The path of the log file, if one is named. -/
def logPath (args : List String) : Option String :=
  match Command.Arguments.parse args with
  | .ok a => a.logFile.map fun path =>
    let (dir, name) := Command.logFileParts path
    Path.join dir name
  | .error _ => none

end Mentions

open Mentions in
def main (args : List String) : IO UInt32 := do
  let outcome ← Command.run systemFiles args
  for line in outcome.output do
    IO.println line
  for line in outcome.complaints do
    IO.eprintln line
  for notice in outcome.log do
    IO.eprintln (logLine notice)
  if let some path := logPath args then
    if let .ran shown := outcome then
      IO.FS.withFile path .append fun file => do
        for notice in shown.logged do
          file.putStrLn (logLine notice)
  return outcome.exitCode
