import Templating.CommandLine.Run
import Templating.CommandLine.Usage

namespace Templating.CommandLine

/-- The variable of the environment that holds the filter of events. -/
def filterVariable : String := "TEMPLATE_TOOLS_LOG"

/-- The files that a command may ask for. -/
def Invocation.paths (i : Invocation) : List String :=
  Config.path i.workspace ::
    match i.command with
    | .tag _ _ => []
    | .encode plans _ => plans
    | .decode map => [map]

end Templating.CommandLine

open Templating Templating.CommandLine

/-- Reading a file gives its text or the reason why there is none. -/
def readPath (path : String) : IO (Except ReadError String) := do
  try
    let content ← IO.FS.readBinFile path
    return match String.fromUTF8? content with
      | some text => .ok text
      | none => .error .notText
  catch
    | .noFileOrDirectory .. => return .error .missing
    | .inappropriateType _ 21 _ => return .error .isDirectory
    | .inappropriateType .. => return .error .notDirectory
    | e => return .error (.other (toString e))

/-- This parser knows the kind of a fault and not its place. -/
def faultWords (e : ParseError) : String :=
  match e.fault with
  | .malformed => "the text breaks the grammar"
  | .truncated => "the text ends too early"
  | .mismatched => "the text is of another shape"

def printEvents (filter : Log.Filter) (events : List Log.Event) : IO Unit :=
  for e in events do
    if filter.allows e then IO.eprintln e.line

def main (arguments : List String) : IO UInt32 := do
  match parse arguments with
  | .error refusal =>
    IO.print refusal.standardOutput
    for complaint in refusal.complaint do IO.eprintln complaint
    return UInt32.ofNat refusal.exitCode
  | .ok invocation =>
    let read ← invocation.paths.mapM fun path => return (path, ← readPath path)
    let files : Files := fun path => (read.lookup path).getD (.error .missing)
    let run := run faultWords files invocation
    if let some text ← IO.getEnv filterVariable then printEvents (.ofText text) run.events
    match run.result with
    | .error failure =>
      IO.eprintln (failure.chain faultWords)
      return 1
    | .ok outcome =>
      IO.eprint (outcome.standardError faultWords)
      IO.print outcome.standardOutput
      return UInt32.ofNat outcome.exitCode
