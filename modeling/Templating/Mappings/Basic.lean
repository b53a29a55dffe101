namespace Templating

/-- A place in a source; sources are counted from zero in the order of their list. -/
structure Origin where
  source : Nat
  line : UInt32
  column : UInt32
  deriving Repr, DecidableEq

structure Segment where
  column : UInt32
  origin : Option Origin
  deriving Repr, DecidableEq

structure Mappings where
  lines : Array (Array Segment)
  deriving Repr, DecidableEq

namespace Mappings

def toLists (m : Mappings) : List (List Segment) :=
  m.lines.toList.map Array.toList

def ofLists (lines : List (List Segment)) : Mappings :=
  ⟨(lines.map List.toArray).toArray⟩

@[simp] theorem toLists_ofLists (lines : List (List Segment)) :
    (ofLists lines).toLists = lines := by
  simp [toLists, ofLists, Function.comp_def]

@[simp] theorem ofLists_toLists (m : Mappings) : ofLists m.toLists = m := by
  simp [toLists, ofLists, Function.comp_def]

/-- All segments in order, each with the number of its line. -/
def segments (m : Mappings) : List (UInt32 × Segment) :=
  m.toLists.zipIdx.flatMap fun (line, number) => line.map (UInt32.ofNat number, ·)

/-- Of segments in column order, the number of those that start at or before `column`, once it is
known to lie between `low` and `high`. -/
def countUpTo (segments : Array Segment) (column : UInt32) (low high : Nat)
    (h : high ≤ segments.size) : Nat :=
  if between : low < high then
    let middle := (low + high) / 2
    have : middle < segments.size := by omega
    if segments[middle].column ≤ column then countUpTo segments column (middle + 1) high h
    else countUpTo segments column low middle (by omega)
  else low
termination_by high - low

/-- On a line in column order, the origin of the last segment that starts at or before `column`. -/
def originAt (m : Mappings) (line column : UInt32) : Option Origin := do
  let segments ← m.lines[line.toNat]?
  match countUpTo segments column 0 segments.size (Nat.le_refl _) with
  | 0 => none
  | n + 1 => (← segments[n]?).origin

end Mappings

end Templating
