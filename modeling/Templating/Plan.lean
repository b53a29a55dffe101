import Templating.Builder

namespace Templating

structure Plan where
  file : Option String
  sources : List Source
  lines : List (List Mapping)
  deriving Repr, DecidableEq

namespace Plan

open Json (RecordField Reader)

structure SourceDraft where
  url : Option String := none
  content : Option (Option String) := none

def sourceReader : Reader Source :=
  .record [
    ⟨"url", (·.url.isSome), Reader.string.map fun v d => { d with url := some v }⟩,
    ⟨"content", (·.content.isSome),
      Reader.string.optional.map fun v d => { d with content := some v }⟩]
    ({} : SourceDraft)
    fun d => d.url.map fun url => ⟨url, d.content.join⟩

structure MappingDraft where
  column : Option UInt32 := none
  url : Option (Option String) := none
  originLine : Option (Option UInt32) := none
  originColumn : Option (Option UInt32) := none

def mappingReader : Reader Mapping :=
  .record [
    ⟨"col", (·.column.isSome), Reader.word.map fun v d => { d with column := some v }⟩,
    ⟨"source", (·.url.isSome), Reader.string.optional.map fun v d => { d with url := some v }⟩,
    ⟨"line", (·.originLine.isSome),
      Reader.word.optional.map fun v d => { d with originLine := some v }⟩,
    ⟨"column", (·.originColumn.isSome),
      Reader.word.optional.map fun v d => { d with originColumn := some v }⟩]
    ({} : MappingDraft)
    fun d => d.column.map fun column =>
      ⟨column, d.url.join, d.originLine.join, d.originColumn.join⟩

structure Draft where
  file : Option (Option String) := none
  sources : Option (List Source) := none
  lines : Option (List (List Mapping)) := none

def reader : Reader Plan :=
  .record [
    ⟨"file", (·.file.isSome), Reader.string.optional.map fun v d => { d with file := some v }⟩,
    ⟨"sources", (·.sources.isSome), sourceReader.list.map fun v d => { d with sources := some v }⟩,
    ⟨"lines", (·.lines.isSome), mappingReader.list.list.map fun v d => { d with lines := some v }⟩]
    ({} : Draft)
    fun d => d.lines.map fun lines => ⟨d.file.join, d.sources.getD [], lines⟩

def read (text : String) : Except Json.Fault Plan :=
  reader.read text

def steps (p : Plan) : List Builder.Step :=
  p.sources.map .source ++ p.lines.flatMap fun line => .line :: line.map .mapping

/-- The builder a replay starts from; the default file counts where the plan names none. -/
def start (p : Plan) (defaultFile : Option String) : Builder :=
  { file := p.file <|> defaultFile }

/-- The builder in which the replay ends, and the failure that ended it early. -/
def play (p : Plan) (defaultFile : Option String) : Builder × Option Builder.Error :=
  (p.start defaultFile).play p.steps

def replay (p : Plan) (defaultFile : Option String) : Except Builder.Error Builder :=
  match p.play defaultFile with
  | (b, none) => .ok b
  | (_, some e) => .error e

end Plan

end Templating
