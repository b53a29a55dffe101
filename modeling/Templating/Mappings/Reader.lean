import Templating.Mappings.Cursor
import Templating.Vlq

namespace Templating.Mappings

inductive Total where
  | generatedColumn
  | sourceIndex
  | sourceLine
  | sourceColumn
  deriving Repr, DecidableEq

def Total.name : Total → String
  | .generatedColumn => "generated column"
  | .sourceIndex => "source index"
  | .sourceLine => "source line"
  | .sourceColumn => "source column"

inductive Error where
  | value (e : Vlq.Error)
  | segmentLength (fields : Nat)
  | outOfRange (total : Total)
  deriving Repr, DecidableEq

def Error.message : Error → String
  | .value e => e.message
  | .segmentLength n => "invalid segment with " ++ n.repr ++ " fields in mappings"
  | .outOfRange total => total.name ++ " out of range in decoded mappings"

def word (total : Total) (n : Int) : Except Error UInt32 :=
  if 0 ≤ n ∧ n < UInt32.size then .ok (UInt32.ofNat n.toNat) else .error (.outOfRange total)

def readFields (piece : List Char) : Except Error (List Int64) :=
  match Vlq.decodeAll piece with
  | ⟨values, none, _⟩ => .ok values
  | ⟨_, some e, _⟩ => .error (.value e)

/-- The origin that the fields behind the column lead to. -/
def originFrom (c : Cursor) (source line column : Int64) : Except Error Origin := do
  let source ← word .sourceIndex (c.source + source.toInt)
  let line ← word .sourceLine (c.line + line.toInt)
  let column ← word .sourceColumn (c.originColumn + column.toInt)
  return ⟨source.toNat, line, column⟩

/-- The segment that fields lead to. The column is checked before the number of fields, and the
fifth field, the index of a name, is not kept. -/
def segmentFrom (c : Cursor) : List Int64 → Except Error Segment
  | [] => .error (.segmentLength 0)
  | column :: others => do
    let start ← word .generatedColumn (c.column + column.toInt)
    match others with
    | [] => return ⟨start, none⟩
    | [source, line, column] => return ⟨start, some (← originFrom c source line column)⟩
    | [source, line, column, _] => return ⟨start, some (← originFrom c source line column)⟩
    | _ => .error (.segmentLength (others.length + 1))

def readPiece (c : Cursor) (piece : List Char) : Except Error Segment := do
  segmentFrom c (← readFields piece)

def pieces (line : List Char) : List (List Char) :=
  (line.splitOn ',').filter (! ·.isEmpty)

/-- Reads the segments of one line and moves the cursor past them. -/
def readLine (c : Cursor) (line : List Char) : Except Error (Cursor × Array Segment) :=
  (pieces line).foldlM (fun (c, segments) piece => do
    let segment ← readPiece c piece
    return (c.past segment, segments.push segment)) (c.newLine, #[])

def readLines (c : Cursor) (lines : List (List Char)) :
    Except Error (Cursor × Array (Array Segment)) :=
  lines.foldlM (fun (c, done) line => do
    let (c, segments) ← readLine c line
    return (c, done.push segments)) (c, #[])

def read (text : String) : Except Error Mappings := do
  let (_, lines) ← readLines {} (text.toList.splitOn ';')
  return ⟨lines⟩

end Templating.Mappings
