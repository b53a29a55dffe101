import Templating.Mappings.Writer
import Templating.SourceMap

namespace Templating

structure Source where
  url : String
  content : Option String := none
  deriving Repr, DecidableEq

/-- A mapping as it is asked for: the column it starts at and perhaps a place in a source. -/
structure Mapping where
  column : UInt32
  url : Option String := none
  originLine : Option UInt32 := none
  originColumn : Option UInt32 := none
  deriving Repr, DecidableEq

/-- The sources in the order of their first registration, and the lines with the last one in front,
its last segment in front. -/
structure Builder where
  file : Option String := none
  sources : List Source := []
  lines : List (List Segment) := []
  lastColumn : UInt32 := 0
  hasMappings : Bool := false
  deriving Repr, DecidableEq

namespace Builder

inductive Error where
  | noLine
  | unknownSource (url : String)
  | outOfOrder (line : Nat) (column lastColumn : UInt32)
  | missingLocation (url : String)
  deriving Repr, DecidableEq

def Error.message : Error → String
  | .noLine => "a line must be added before mappings can be added"
  | .unknownSource url => "unknown source file \"" ++ url ++ "\""
  | .outOfOrder line column lastColumn =>
    "mapping added out of order at line " ++ line.repr ++ ": column " ++ column.toNat.repr ++
      " after column " ++ lastColumn.toNat.repr
  | .missingLocation url =>
    "the source location must be provided when a source url is provided (\"" ++ url ++ "\")"

/-- The lines in order, each with its segments in order. -/
def recorded (b : Builder) : List (List Segment) :=
  (b.lines.map List.reverse).reverse

def urls (b : Builder) : List String :=
  b.sources.map Source.url

/-- The first registration of a URL counts, later ones are passed over. -/
def addSource (b : Builder) (s : Source) : Builder :=
  if s.url ∈ b.urls then b else { b with sources := b.sources ++ [s] }

@[simp] theorem recorded_addSource (b : Builder) (s : Source) :
    (b.addSource s).recorded = b.recorded := by
  unfold addSource
  split <;> rfl

def addLine (b : Builder) : Builder :=
  { b with lines := [] :: b.lines, lastColumn := 0 }

@[simp] theorem recorded_addLine (b : Builder) : b.addLine.recorded = b.recorded ++ [[]] := by
  simp [addLine, recorded]

/-- The URL and the index of the source that a mapping names. -/
def sourceOf (b : Builder) (m : Mapping) : Except Error (Option (String × Nat)) :=
  match m.url with
  | none => .ok none
  | some url =>
    match b.urls.idxOf? url with
    | none => .error (.unknownSource url)
    | some index => .ok (some (url, index))

/-- A mapping that names a source has to give a line and a column in it. -/
def originOf (m : Mapping) : Option (String × Nat) → Except Error (Option Origin)
  | none => .ok none
  | some (url, index) =>
    match m.originLine, m.originColumn with
    | some line, some column => .ok (some ⟨index, line, column⟩)
    | _, _ => .error (.missingLocation url)

/-- The number of the line that mappings go to. -/
def currentLine (b : Builder) : Except Error Nat :=
  match b.lines with
  | [] => .error .noLine
  | _ :: earlier => .ok earlier.length

/-- A segment behind all others of the last line. -/
def push (b : Builder) (s : Segment) : Builder :=
  { b with lines := b.lines.modifyHead (s :: ·) }

/-- What is done to a builder in place: a failure leaves behind all that was changed before it. -/
abbrev Call := ExceptT Error (StateM Builder)

/-- The builder that a call leaves behind, and what came of the call. -/
def call (b : Builder) (c : Call α) : Builder × Except Error α :=
  (c.run.run b).swap

@[simp] theorem call_get_bind (b : Builder) (f : Builder → Call α) :
    b.call (get >>= f) = b.call (f b) := rfl

@[simp] theorem call_lift_bind (b : Builder) (x : Except Error β) (f : β → Call α) :
    b.call (liftM x >>= f) = match x with
      | .ok a => b.call (f a)
      | .error e => (b, .error e) := by
  cases x <;> rfl

@[simp] theorem call_modify_bind (b : Builder) (change : Builder → Builder) (f : Unit → Call α) :
    b.call (modify change >>= f) = (change b).call (f ()) := rfl

@[simp] theorem call_modify (b : Builder) (change : Builder → Builder) :
    b.call (modify change) = (change b, .ok ()) := rfl

def addMapping (b : Builder) (m : Mapping) : Builder × Except Error Unit :=
  b.call do
    let b ← get
    let line ← b.currentLine
    let source ← b.sourceOf m
    if m.column < b.lastColumn then throw (.outOfOrder line m.column b.lastColumn)
    let origin ← originOf m source
    modify (·.push ⟨m.column, origin⟩)
    modify ({ · with lastColumn := m.column })
    modify ({ · with hasMappings := true })

/-- The map of all that was recorded, and none before the first mapping. An empty content counts as
missing. -/
def map? (b : Builder) : Option SourceMap :=
  if b.hasMappings then
    some {
      file := b.file.getD ""
      version := 3
      sourceRoot := ""
      sources := b.urls
      sourcesContent := b.sources.map fun s => s.content.filter (· ≠ "")
      mappings := Mappings.write b.recorded }
  else none

/-- The map as JSON, which is `null` without mappings. -/
def text (b : Builder) : String :=
  match b.map? with
  | none => Json.Value.null.text
  | some m => m.text

/-- The comment with the map, and the empty text without mappings. -/
def comment (b : Builder) : String :=
  match b.map? with
  | none => ""
  | some m => m.comment

inductive Step where
  | source (s : Source)
  | line
  | mapping (m : Mapping)
  deriving Repr, DecidableEq

/-- The builder after a step, and whether the step failed. -/
def apply (b : Builder) : Step → Builder × Except Error Unit
  | .source s => (b.addSource s, .ok ())
  | .line => (b.addLine, .ok ())
  | .mapping m => b.addMapping m

def after (b : Builder) (step : Step) : Builder :=
  (b.apply step).1

def run (b : Builder) (steps : List Step) : Builder :=
  steps.foldl after b

@[simp] theorem run_append (b : Builder) (xs ys : List Step) :
    b.run (xs ++ ys) = (b.run xs).run ys :=
  List.foldl_append

/-- The state in which the steps end or the first of them fails, and that failure. -/
def play (b : Builder) : List Step → Builder × Option Error
  | [] => (b, none)
  | step :: rest =>
    match b.apply step with
    | (b, .ok ()) => b.play rest
    | (b, .error e) => (b, some e)

end Builder

end Templating
