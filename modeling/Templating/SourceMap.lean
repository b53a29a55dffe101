import Templating.Base64
import Templating.Json.Printer
import Templating.Json.Record
import Templating.Mappings.Reader

namespace Templating

structure SourceMap where
  file : String
  version : UInt32
  sourceRoot : String
  sources : List String
  sourcesContent : List (Option String)
  mappings : String
  deriving Repr, DecidableEq

namespace SourceMap

open Json (RecordField Reader Value)

def value (m : SourceMap) : Value :=
  .object [
    ("file", .string m.file),
    ("version", .number m.version.toNat),
    ("sourceRoot", .string m.sourceRoot),
    ("sources", .array (m.sources.map .string)),
    ("sourcesContent", .array (m.sourcesContent.map fun
      | none => .null
      | some content => .string content)),
    ("mappings", .string m.mappings)]

def text (m : SourceMap) : String :=
  m.value.text

/-- What the payload of a comment follows. -/
def commentMark : String :=
  "//# sourceMappingURL=data:application/json;base64,"

def comment (m : SourceMap) : String :=
  commentMark ++ String.ofList (Base64.encode m.text.toUTF8.toList)

structure Draft where
  file : Option String := none
  version : Option UInt32 := none
  sourceRoot : Option String := none
  sources : Option (List String) := none
  sourcesContent : Option (List (Option String)) := none
  mappings : Option String := none

def Draft.fields : List (RecordField Draft) := [
  ⟨"file", (·.file.isSome), Reader.string.map fun v d => { d with file := some v }⟩,
  ⟨"version", (·.version.isSome), Reader.word.map fun v d => { d with version := some v }⟩,
  ⟨"sourceRoot", (·.sourceRoot.isSome),
    Reader.string.map fun v d => { d with sourceRoot := some v }⟩,
  ⟨"sources", (·.sources.isSome),
    Reader.string.list.map fun v d => { d with sources := some v }⟩,
  ⟨"sourcesContent", (·.sourcesContent.isSome),
    Reader.string.optional.list.map fun v d => { d with sourcesContent := some v }⟩,
  ⟨"mappings", (·.mappings.isSome), Reader.string.map fun v d => { d with mappings := some v }⟩]

/-- The version, the sources and the mappings have to be given. -/
def Draft.finish (d : Draft) : Option SourceMap := do
  return {
    file := d.file.getD ""
    version := ← d.version
    sourceRoot := d.sourceRoot.getD ""
    sources := ← d.sources
    sourcesContent := d.sourcesContent.getD []
    mappings := ← d.mappings }

def reader : Reader SourceMap :=
  .record Draft.fields {} Draft.finish

def read (text : String) : Except Json.Fault SourceMap :=
  reader.read text

def decoded (m : SourceMap) : Except Mappings.Error Mappings :=
  Mappings.read m.mappings

/-- The text of a source; one that the map does not list is shown by its index. -/
def sourceText (m : SourceMap) (index : Nat) : String :=
  (m.sources[index]?).getD ("#" ++ index.repr)

end SourceMap

end Templating
