import Templating.CommandLine.Arguments
import Templating.Json.Printer
import Templating.SourceMap
import Templating.Tag.Registry

namespace Templating.CommandLine

open Json (Value)

def lines (ls : List String) : String :=
  "\n".intercalate ls

/-- A name, the rule it has, and the content in the namespace asked for. -/
structure TagReport where
  name : String
  isKnown : Bool
  rule : Tag.Rule
  content : Tag.Content
  deriving Repr, DecidableEq

namespace TagReport

def ofName (registry : Tag.Registry) (space : Option String) (name : String) : TagReport where
  name := name
  isKnown := registry.isKnown name
  rule := registry.get name
  content := (registry.get name).contentIn space

/-- What is particular about the rule, in words. -/
def marks (t : TagReport) : List String :=
  let r := t.rule
  let marked (holds : Bool) (mark : String) := if holds then [mark] else []
  marked (! t.isKnown) "unknown" ++
  marked r.isVoid "void" ++
  marked r.closedByParent "closed-by-parent" ++
  marked r.canSelfClose "self-closing" ++
  marked r.dropsFirstLineFeed "ignore-first-lf" ++
  (r.impliedSpace.map ("ns=" ++ ·)).toList ++
  marked r.isolatesSpace "no-ns-inheritance" ++
  marked (! r.closedBy.isEmpty) ("closed-by=[" ++ ",".intercalate r.sortedClosers ++ "]")

def line (t : TagReport) : String :=
  " ".intercalate ((t.name ++ ": " ++ t.content.name) :: t.marks)

def value (t : TagReport) : Value :=
  .object [
    ("name", .string t.name),
    ("known", .bool t.isKnown),
    ("isVoid", .bool t.rule.isVoid),
    ("closedByParent", .bool t.rule.closedByParent),
    ("canSelfClose", .bool t.rule.canSelfClose),
    ("ignoreFirstLf", .bool t.rule.dropsFirstLineFeed),
    ("contentType", .string t.content.name),
    ("implicitNamespacePrefix", match t.rule.impliedSpace with
      | none => .null
      | some space => .string space),
    ("preventNamespaceInheritance", .bool t.rule.isolatesSpace),
    ("closedByChildren", .array (t.rule.sortedClosers.map .string))]

def print (ts : List TagReport) : Format → String
  | .human => lines (ts.map line)
  | .json => (Value.array (ts.map value)).pretty

end TagReport

/-- A plan that was replayed: its map, if it has mappings, and the comment that was asked for. -/
structure Encoded where
  plan : String
  map : Option SourceMap
  comment : Option String
  deriving Repr, DecidableEq

namespace Encoded

def line (e : Encoded) : String :=
  match e.comment, e.map with
  | some comment, _ => comment
  | none, some map => map.text
  | none, none => e.plan ++ ": no mappings"

/-- The comment is left out where there is none. -/
def value (e : Encoded) : Value :=
  .object ([
    ("plan", .string e.plan),
    ("sourceMap", match e.map with
      | none => .null
      | some map => map.value)] ++
    (e.comment.map fun comment => ("comment", .string comment)).toList)

def print (es : List Encoded) : Format → String
  | .human => lines (es.map line)
  | .json => (Value.array (es.map value)).pretty

end Encoded

/-- A place in a source that is known by its text. -/
structure RowOrigin where
  source : String
  line : UInt32
  column : UInt32
  deriving Repr, DecidableEq

/-- A segment with the number of its line and the text of its source. -/
structure Row where
  line : UInt32
  column : UInt32
  origin : Option RowOrigin
  deriving Repr, DecidableEq

namespace Row

def ofMap (m : SourceMap) (decoded : Mappings) : List Row :=
  decoded.segments.map fun (line, segment) => {
    line := line
    column := segment.column
    origin := segment.origin.map fun o =>
      ⟨m.sourceText o.source, o.line, o.column⟩ }

def text (r : Row) : String :=
  let generated := r.line.toNat.repr ++ ":" ++ r.column.toNat.repr
  match r.origin with
  | none => generated
  | some o =>
    generated ++ " -> " ++ o.source ++ ":" ++ o.line.toNat.repr ++ ":" ++ o.column.toNat.repr

/-- The place in a source is left out where there is none. -/
def value (r : Row) : Value :=
  .object ([
    ("generatedLine", .number r.line.toNat),
    ("generatedColumn", .number r.column.toNat)] ++
    match r.origin with
    | none => []
    | some o => [
      ("source", .string o.source),
      ("originalLine", .number o.line.toNat),
      ("originalColumn", .number o.column.toNat)])

def print (rs : List Row) : Format → String
  | .human => lines (rs.map text)
  | .json => (Value.array (rs.map value)).pretty

end Row

end Templating.CommandLine
