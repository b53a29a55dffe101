import Templating.CommandLine.Report
import Templating.Config
import Templating.Plan

namespace Templating.CommandLine

/-- An error and then each of its causes, one per line. -/
def errorChain (error : String) (causes : List String) : String :=
  causes.foldl (fun out cause => out ++ "\n  caused by: " ++ cause) ("Error: " ++ error)

/-- Why a file came to nothing. -/
inductive Failure where
  | unread (path : String) (e : ReadError)
  | unparsed (path : String) (e : ParseError)
  | unplayable (path : String) (e : Builder.Error)
  | undecodable (path : String) (e : Mappings.Error)
  deriving Repr, DecidableEq

namespace Failure

def message : Failure → String
  | .unread path _ => "failed to read " ++ path
  | .unparsed path _ => "failed to parse " ++ path
  | .unplayable path e => path ++ ": " ++ e.message
  | .undecodable path e => path ++ ": " ++ e.message

/-- What lies behind a failure; none of these errors has a cause of its own. -/
def cause (words : Wording) : Failure → String
  | .unread _ e => e.message
  | .unparsed _ e => words e
  | .unplayable _ e => e.message
  | .undecodable _ e => e.message

/-- The code under which a failure that ends the run is reported. -/
def code : Failure → String
  | .unread _ _ => "template_tools::read"
  | .unparsed _ _ => "template_tools::parse"
  | .unplayable _ _ => "template_tools::source_map"
  | .undecodable _ _ => "template_tools::source_map"

def help : Failure → Option String
  | .unread _ _ => none
  | .unparsed _ _ => none
  | .unplayable _ _ => some buildingHelp
  | .undecodable _ _ => some buildingHelp
where
  buildingHelp := "mappings must follow add_line and be added in output order"

def chain (words : Wording) (f : Failure) : String :=
  errorChain f.message [f.cause words]

end Failure

/-- What is printed, and the failures of single files. -/
structure Outcome where
  output : Option String
  failures : List Failure
  deriving Repr, DecidableEq

namespace Outcome

def standardOutput (o : Outcome) : String :=
  match o.output with
  | none => ""
  | some text => text ++ "\n"

def standardError (words : Wording) (o : Outcome) : String :=
  String.join (o.failures.map (·.chain words ++ "\n"))

def exitCode (o : Outcome) : Nat :=
  if o.failures.isEmpty then 0 else 1

end Outcome

/-- A run that was ended by a failure, or its outcome, and the events on the way. -/
structure Run where
  result : Except Failure Outcome
  events : List Log.Event

def registryEvent (r : Tag.Registry) : Log.Event :=
  ⟨.debug, "html_tags::registry", "tag registry built", [
    ("listed", Tag.listedRules.length.repr),
    ("known", (r.size - Tag.listedRules.length).repr)]⟩

def tag (config : Config) (names : List String) (space : Option String) (format : Format) : Run :=
  let registry := config.registry
  let reports := names.map (TagReport.ofName registry space)
  ⟨.ok ⟨some (TagReport.print reports format), []⟩, [registryEvent registry]⟩

def mappingEvent (line : Nat) (s : Segment) : Log.Event :=
  let source := match s.origin with
    | none => "None"
    | some o => "Some(SourceLocation \x7b source_index: " ++ o.source.repr ++ ", line0: " ++
      o.line.toNat.repr ++ ", col0: " ++ o.column.toNat.repr ++ " \x7d)"
  ⟨.trace, "source_map::generator", "mapping added",
    [("line", line.repr), ("col0", s.column.toNat.repr), ("source", source)]⟩

/-- An event for every mapping that has been added. -/
def mappingEvents (b : Builder) : List Log.Event :=
  b.recorded.zipIdx.flatMap fun (segments, line) => segments.map (mappingEvent line)

def replayEvent (path : String) (b : Builder) : Log.Event :=
  ⟨.debug, "template_tools::commands", "plan replayed",
    [("path", path), ("lines", b.lines.length.repr)]⟩

def commentEvent (m : SourceMap) : Log.Event :=
  ⟨.debug, "source_map::json", "encoding inline source map",
    [("sources", m.sources.length.repr), ("bytes", m.text.utf8ByteSize.repr)]⟩

/-- The plan in a file, replayed and encoded. -/
def encodePlan (files : Files) (config : Config) (comment : Bool) (path : String) :
    Except Failure Encoded × List Log.Event :=
  match files path with
  | .error e => (.error (.unread path e), [])
  | .ok text =>
    match Plan.read text with
    | .error f => (.error (.unparsed path ⟨.plan, text, f⟩), [])
    | .ok plan =>
      match plan.play config.file with
      | (b, some e) => (.error (.unplayable path e), mappingEvents b)
      | (b, none) =>
        let commented := if comment then b.map? else none
        (.ok ⟨path, b.map?, commented.map SourceMap.comment⟩,
          mappingEvents b ++ replayEvent path b :: (commented.map commentEvent).toList)

/-- Nothing is printed if no plan could be encoded. -/
def collect (results : List (Except Failure Encoded)) (format : Format) : Outcome :=
  let encoded := results.filterMap Except.toOption
  let failures := results.filterMap fun
    | .ok _ => none
    | .error f => some f
  ⟨if encoded.isEmpty then none else some (Encoded.print encoded format), failures⟩

def encode (files : Files) (config : Config) (plans : List String) (comment : Bool)
    (format : Format) : Run :=
  let results := plans.map (encodePlan files config comment)
  ⟨.ok (collect (results.map (·.1)) format), results.flatMap (·.2)⟩

/-- The rows of the map in a file. -/
def decodeRows (files : Files) (path : String) : Except Failure (List Row) :=
  match files path with
  | .error e => .error (.unread path e)
  | .ok text =>
    match SourceMap.read text with
    | .error f => .error (.unparsed path ⟨.map, text, f⟩)
    | .ok m =>
      match m.decoded with
      | .error e => .error (.undecodable path e)
      | .ok decoded => .ok (Row.ofMap m decoded)

def decode (files : Files) (path : String) (format : Format) : Run :=
  ⟨(decodeRows files path).map fun rows => ⟨some (Row.print rows format), []⟩, []⟩

def runCommand (files : Files) (config : Config) (invocation : Invocation) : Run :=
  match invocation.command with
  | .tag names space => tag config names space invocation.format
  | .encode plans comment => encode files config plans comment invocation.format
  | .decode map => decode files map invocation.format

def run (words : Wording) (files : Files) (invocation : Invocation) : Run :=
  let finding := Config.find files invocation.workspace
  let r := runCommand files finding.config invocation
  { r with events := finding.events words (Config.path invocation.workspace) ++ r.events }

end Templating.CommandLine
