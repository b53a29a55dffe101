import Templating.Files
import Templating.Json.Record
import Templating.Log
import Templating.Tag.Registry

namespace Templating

/-- The elements known besides those of HTML, and the name of the generated file where a plan gives
none. -/
structure Config where
  extraElements : List String := []
  file : Option String := none
  deriving Repr, DecidableEq

namespace Config

open Json (RecordField Reader)

def fileName : String := "template-tools.json"

def path (workspace : String) : String :=
  joinPath workspace fileName

structure Draft where
  extraElements : Option (List String) := none
  file : Option (Option String) := none

/-- No field has to be given. -/
def reader : Reader Config :=
  .record [
    ⟨"extraElements", (·.extraElements.isSome),
      Reader.string.list.map fun v d => { d with extraElements := some v }⟩,
    ⟨"file", (·.file.isSome), Reader.string.optional.map fun v d => { d with file := some v }⟩]
    ({} : Draft)
    fun d => some ⟨d.extraElements.getD [], d.file.join⟩

def registry (c : Config) : Tag.Registry :=
  .ofKnown (Tag.domElements ++ c.extraElements)

/-- What came of looking for a configuration. -/
inductive Finding where
  | absent
  | loaded (c : Config)
  | unread (e : ReadError)
  | unparsed (e : ParseError)
  deriving Repr

def find (files : Files) (workspace : String) : Finding :=
  match files (path workspace) with
  | .error e => if e.isAbsent then .absent else .unread e
  | .ok text =>
    match reader.read text with
    | .ok c => .loaded c
    | .error f => .unparsed ⟨.config, text, f⟩

/-- The configuration that holds after the search. -/
def Finding.config : Finding → Config
  | .loaded c => c
  | _ => {}

def Finding.events (words : Wording) (path : String) : Finding → List Log.Event
  | .absent => []
  | .loaded c =>
    [⟨.debug, target, "loaded config",
      [("path", path), ("extra_elements", c.extraElements.length.repr)]⟩]
  | .unread e => [⟨.warn, target, "failed to read " ++ path ++ ": " ++ e.message, []⟩]
  | .unparsed e => [⟨.warn, target, "failed to parse " ++ path ++ ": " ++ words e, []⟩]
where
  target := "template_tools::config"

end Config

end Templating
