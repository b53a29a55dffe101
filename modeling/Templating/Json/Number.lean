import Templating.Binary64
import Templating.Json.Basic

namespace Templating.Json

/-- The parts of a number as it is written. -/
structure Literal where
  negative : Bool
  whole : List Char
  fraction : List Char
  exponent : Option (Bool × List Char)
  deriving Repr, DecidableEq

namespace Literal

/-- The digits at the front of a text, of which there has to be one. -/
def readDigits (s : List Char) : Except Fault (List Char × List Char) :=
  match s with
  | [] => .error .truncated
  | c :: _ =>
    if c.isDigit then .ok (s.takeWhile Char.isDigit, s.dropWhile Char.isDigit)
    else .error .malformed

def readSign : List Char → Bool × List Char
  | '-' :: s => (true, s)
  | s => (false, s)

/-- No other digit follows a leading zero. -/
def readWhole (s : List Char) : Except Fault (List Char × List Char) := do
  let (digits, rest) ← readDigits s
  if digits.head? = some '0' ∧ 1 < digits.length then .error .malformed
  else .ok (digits, rest)

def readFraction : List Char → Except Fault (List Char × List Char)
  | '.' :: s => readDigits s
  | s => .ok ([], s)

def readExponentSign : List Char → Bool × List Char
  | '+' :: s => (false, s)
  | s => readSign s

def readExponent : List Char → Except Fault (Option (Bool × List Char) × List Char)
  | c :: s =>
    if c = 'e' ∨ c = 'E' then do
      let sign := readExponentSign s
      let (digits, s) ← readDigits sign.2
      return (some (sign.1, digits), s)
    else .ok (none, c :: s)
  | [] => .ok (none, [])

def read (s : List Char) : Except Fault (Literal × List Char) := do
  let sign := readSign s
  let (whole, s) ← readWhole sign.2
  let (fraction, s) ← readFraction s
  let (exponent, s) ← readExponent s
  return (⟨sign.1, whole, fraction, exponent⟩, s)

theorem length_of_readDigits {s digits rest : List Char} (h : readDigits s = .ok (digits, rest)) :
    rest.length < s.length := by
  unfold readDigits at h
  split at h
  · cases h
  · rename_i c s
    split at h
    · rename_i hc
      obtain ⟨-, rfl⟩ := Prod.mk.inj (Except.ok.inj h)
      rw [List.dropWhile_cons_of_pos hc]
      exact Nat.lt_succ_of_le (List.dropWhile_sublist _).length_le
    · cases h

theorem length_readSign_le (s : List Char) : (readSign s).2.length ≤ s.length := by
  unfold readSign
  split <;> simp

theorem length_readExponentSign_le (s : List Char) :
    (readExponentSign s).2.length ≤ s.length := by
  unfold readExponentSign
  split
  · simp
  · exact length_readSign_le _

theorem length_of_readWhole {s digits rest : List Char} (h : readWhole s = .ok (digits, rest)) :
    rest.length < s.length := by
  obtain ⟨⟨digits, rest⟩, hd, h⟩ := ok_of_bind h
  dsimp only at h
  split at h
  · cases h
  · cases h
    exact length_of_readDigits hd

theorem length_of_readFraction {s digits rest : List Char}
    (h : readFraction s = .ok (digits, rest)) : rest.length ≤ s.length := by
  unfold readFraction at h
  split at h
  · exact Nat.le_succ_of_le (Nat.le_of_lt (length_of_readDigits h))
  · cases h
    exact Nat.le_refl _

theorem length_of_readExponent {s rest : List Char} {e : Option (Bool × List Char)}
    (h : readExponent s = .ok (e, rest)) : rest.length ≤ s.length := by
  unfold readExponent at h
  split at h
  · rename_i c s
    split at h
    · obtain ⟨⟨digits, rest⟩, hd, h⟩ := ok_of_bind h
      cases h
      have hlt := length_of_readDigits hd
      have hle := length_readExponentSign_le s
      simp only [List.length_cons]
      omega
    · cases h
      exact Nat.le_refl _
  · cases h
    exact Nat.le_refl _

theorem length_of_read {s rest : List Char} {l : Literal} (h : read s = .ok (l, rest)) :
    rest.length < s.length := by
  obtain ⟨⟨whole, s₁⟩, hw, h⟩ := ok_of_bind h
  obtain ⟨⟨fraction, s₂⟩, hf, h⟩ := ok_of_bind h
  obtain ⟨⟨exponent, s₃⟩, he, h⟩ := ok_of_bind h
  cases h
  have hs := length_readSign_le s
  have h₁ := length_of_readWhole hw
  have h₂ := length_of_readFraction hf
  have h₃ := length_of_readExponent he
  omega

/-- Appends digits to a number of 64 bits up to the first that does not fit, and counts those
appended. -/
def append (n : Nat) : List Char → Nat × Nat
  | [] => (n, 0)
  | d :: ds =>
    let longer := 10 * n + (d.toNat - 48)
    if longer < UInt64.size then
      let (n, count) := append longer ds
      (n, count + 1)
    else (n, 0)

/-- The number of 64 bits and the power of ten that stand for the literal. Digits of the whole part
that do not fit raise the power, digits of the fraction that do not fit are dropped. -/
def scaled (l : Literal) : Nat × Int :=
  let (n, kept) := append 0 l.whole
  let (n, appended) := append n l.fraction
  let power : Int := match l.exponent with
    | none => 0
    | some (negative, digits) =>
      if negative then -Nat.ofDigitChars 10 digits 0 else Nat.ofDigitChars 10 digits 0
  (n, power + (l.whole.length - kept : Nat) - appended)

def isFinite (l : Literal) : Bool :=
  let (n, power) := l.scaled
  n == 0 || power < 0 ||
    (power ≤ 308 && Binary64.isFinite (Binary64.round n * Binary64.round (Nat.pow 10 power.toNat)))

/-- The value of a literal that is written with digits alone. -/
def natural? (l : Literal) : Option Nat :=
  if l.negative = false ∧ l.fraction = [] ∧ l.exponent = none then
    some (Nat.ofDigitChars 10 l.whole 0)
  else none

end Literal

end Templating.Json
