namespace Templating.Base64

/-- The digit of a value below 64. -/
def digit (value : Nat) : Char :=
  if value < 26 then Char.ofNat (value + 65)
  else if value < 52 then Char.ofNat (value + 71)
  else if value < 62 then Char.ofNat (value - 4)
  else if value = 62 then '+'
  else '/'

/-- The value of a digit, and nothing for a character outside the alphabet. -/
def value? (c : Char) : Option Nat :=
  if 'A' ≤ c ∧ c ≤ 'Z' then some (c.toNat - 65)
  else if 'a' ≤ c ∧ c ≤ 'z' then some (c.toNat - 71)
  else if '0' ≤ c ∧ c ≤ '9' then some (c.toNat + 4)
  else if c = '+' then some 62
  else if c = '/' then some 63
  else none

theorem value?_digit {n : Nat} (h : n < 64) : value? (digit n) = some n := by
  revert n; decide

theorem value?_lt {c : Char} {n : Nat} (h : value? c = some n) : n < 64 := by
  simp only [value?, Char.le_def, UInt32.le_iff_toNat_le] at h
  have hc : c.toNat = c.val.toNat := rfl
  split at h
  · simp_all; omega
  split at h
  · simp_all; omega
  split at h
  · simp_all; omega
  split at h
  · simp_all; omega
  split at h
  · simp_all; omega
  · simp at h

theorem digit_of_value? {c : Char} {n : Nat} (h : value? c = some n) : digit n = c := by
  have hn := value?_lt h
  simp only [value?, Char.le_def, UInt32.le_iff_toNat_le] at h
  have hc : c.toNat = c.val.toNat := rfl
  grind [digit, Char.ofNat_toNat]

theorem digit_eq_A {n : Nat} (h : n < 64) : digit n = 'A' ↔ n = 0 := by
  revert n; decide

/-- Bits are taken from the highest of the first byte downwards, six to a digit. -/
def encode : List UInt8 → List Char
  | a :: b :: c :: rest =>
    let n := (a.toNat * 256 + b.toNat) * 256 + c.toNat
    digit (n / 262144) :: digit (n / 4096 % 64) :: digit (n / 64 % 64) :: digit (n % 64) ::
      encode rest
  | [a, b] =>
    let n := (a.toNat * 256 + b.toNat) * 4
    [digit (n / 4096), digit (n / 64 % 64), digit (n % 64), '=']
  | [a] =>
    let n := a.toNat * 16
    [digit (n / 64), digit (n % 64), '=', '=']
  | [] => []

end Templating.Base64
