namespace Templating.Binary64

/-- The nearest number of 53 significant bits; of two that are equally near, the even one. -/
def round (n : Nat) : Nat :=
  let unit := 1 <<< (n.log2 - 52)
  let quotient := n / unit
  let twice := 2 * (n % unit)
  if unit < twice ∨ (twice = unit ∧ quotient % 2 = 1) then (quotient + 1) * unit
  else quotient * unit

/-- Whether a number still rounds to a finite one. Half a unit below `2 ^ 1024` the tie goes up. -/
def isFinite (n : Nat) : Bool := n < 1 <<< 1024 - 1 <<< 970

end Templating.Binary64
