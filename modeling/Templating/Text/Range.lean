namespace Templating.Text

/-- The code points from the first to the last, or every second one where a script alternates between
two kinds of letters. -/
structure Range where
  first : Nat
  last : Nat
  step : Nat
  deriving Repr, DecidableEq

def Range.has (r : Range) (c : Char) : Bool :=
  r.first ≤ c.toNat && c.toNat ≤ r.last && (c.toNat - r.first) % r.step == 0

def inRanges (rs : List Range) (c : Char) : Bool :=
  rs.any (·.has c)

end Templating.Text
