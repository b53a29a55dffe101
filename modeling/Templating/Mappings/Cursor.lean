import Templating.Mappings.Basic

namespace Templating

/-- The totals that the next differences are measured from. The column starts again on every line,
the place in the sources carries over the whole text. -/
structure Cursor where
  column : Int := 0
  source : Int := 0
  line : Int := 0
  originColumn : Int := 0
  deriving Repr, DecidableEq

namespace Cursor

def newLine (c : Cursor) : Cursor :=
  { c with column := 0 }

/-- The cursor after a segment; one without an origin moves the column only. -/
def past (c : Cursor) (s : Segment) : Cursor :=
  match s.origin with
  | none => { c with column := s.column.toNat }
  | some o => ⟨s.column.toNat, o.source, o.line.toNat, o.column.toNat⟩

/-- The differences that lead from the cursor to a segment. -/
def fields (c : Cursor) (s : Segment) : List Int64 :=
  Int64.ofInt (s.column.toNat - c.column) ::
    match s.origin with
    | none => []
    | some o =>
      [Int64.ofInt (o.source - c.source), Int64.ofInt (o.line.toNat - c.line),
        Int64.ofInt (o.column.toNat - c.originColumn)]

/-- The fields of every segment of a line. -/
def lineFields (c : Cursor) : List Segment → List (List Int64)
  | [] => []
  | s :: rest => c.fields s :: (c.past s).lineFields rest

/-- The fields of every segment, line by line. -/
def allFields (c : Cursor) : List (List Segment) → List (List (List Int64))
  | [] => []
  | line :: rest => c.newLine.lineFields line :: (line.foldl past c.newLine).allFields rest

end Cursor

end Templating
