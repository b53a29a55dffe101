import Templating.Json.Number
import Templating.Json.Text

namespace Templating.Json

inductive Bracket where
  | list
  | object
  deriving Repr, DecidableEq

def Bracket.closing : Bracket → Char
  | .list => ']'
  | .object => '}'

/-- Passes over a number without asking for its value. One that ends too early is malformed. -/
def skipNumber (s : List Char) : Except Fault (List Char) :=
  match Literal.read s with
  | .ok (_, rest) => .ok rest
  | .error _ => .error .malformed

/-- Passes over a value that holds no others, from its first character on. -/
def skipScalar (c : Char) (rest : List Char) : Except Fault (List Char) :=
  if c = '"' then skipQuoted rest
  else if c = '-' ∨ c.isDigit then skipNumber (c :: rest)
  else
    match wordTail? c with
    | some tail => expect tail rest
    | none => .error .malformed

/-- Passes over what stands before a value inside a bracket: nothing in a list, a key and its colon
in an object. -/
def skipKey (b : Bracket) (s : List Char) : Except Fault (List Char) :=
  match b with
  | .list => .ok s
  | .object => do
    let s ← expect ['"'] (dropBlanks s)
    let s ← skipQuoted s
    expect [':'] (dropBlanks s)

theorem length_of_skipScalar {c : Char} {s rest : List Char} (h : skipScalar c s = .ok rest) :
    rest.length ≤ s.length := by
  unfold skipScalar at h
  split at h
  · exact Nat.le_of_lt (length_of_skipQuoted h)
  split at h
  · unfold skipNumber at h
    split at h
    · rename_i hr
      cases h
      exact Nat.le_of_lt_succ (Literal.length_of_read hr)
    · cases h
  split at h
  · exact Nat.le_of_add_right_le (Nat.le_of_eq (length_of_expect h))
  · cases h

theorem length_of_skipKey {b : Bracket} {s rest : List Char} (h : skipKey b s = .ok rest) :
    rest.length ≤ s.length := by
  cases b with
  | list => cases h; exact Nat.le_refl _
  | object =>
    obtain ⟨s₁, h₁, h⟩ := ok_of_bind h
    obtain ⟨s₂, h₂, h₃⟩ := ok_of_bind h
    have := length_of_expect h₁
    have := length_of_skipQuoted h₂
    have := length_of_expect h₃
    have := length_dropBlanks_le s
    have := length_dropBlanks_le s₂
    omega

mutual

/-- Passes over a value and all that is still open around it. -/
def skipValue (stack : List Bracket) (s : List Char) : Except Fault (List Char) :=
  match h : dropBlanks s with
  | [] => .error .truncated
  | c :: rest =>
    have := length_of_dropBlanks h
    if c = '[' then skipOpened .list stack rest
    else if c = '{' then skipOpened .object stack rest
    else
      match hr : skipScalar c rest with
      | .error e => .error e
      | .ok rest' =>
        have := length_of_skipScalar hr
        skipClosed stack rest'
termination_by 2 * s.length
decreasing_by all_goals omega

/-- Goes on right after an opening bracket. -/
def skipOpened (b : Bracket) (stack : List Bracket) (s : List Char) : Except Fault (List Char) :=
  match h : dropBlanks s with
  | [] => .error .truncated
  | c :: rest =>
    have := length_of_dropBlanks h
    if c = b.closing then skipClosed stack rest
    else
      match hr : skipKey b s with
      | .error e => .error e
      | .ok rest' =>
        have := length_of_skipKey hr
        skipValue (b :: stack) rest'
termination_by 2 * s.length + 1
decreasing_by all_goals omega

/-- Goes on right after a value, until no bracket is open. -/
def skipClosed (stack : List Bracket) (s : List Char) : Except Fault (List Char) :=
  match stack with
  | [] => .ok s
  | b :: outer =>
    match h : dropBlanks s with
    | [] => .error .truncated
    | c :: rest =>
      have := length_of_dropBlanks h
      if c = b.closing then skipClosed outer rest
      else if c = ',' then
        match hr : skipKey b rest with
        | .error e => .error e
        | .ok rest' =>
          have := length_of_skipKey hr
          skipValue (b :: outer) rest'
      else .error .malformed
termination_by 2 * s.length
decreasing_by all_goals omega

end

theorem length_le_of_skips :
    (∀ stack s rest, skipValue stack s = .ok rest → rest.length ≤ s.length) ∧
    (∀ stack s rest, skipClosed stack s = .ok rest → rest.length ≤ s.length) ∧
    (∀ b stack s rest, skipOpened b stack s = .ok rest → rest.length ≤ s.length) := by
  apply skipValue.mutual_induct
  all_goals
    intros
    rename_i h
    first | rw [skipValue] at h | rw [skipClosed] at h | rw [skipOpened] at h
    grind

/-- The text after a value of any shape. -/
def skip (s : List Char) : Except Fault (List Char) :=
  skipValue [] s

theorem length_of_skip {s rest : List Char} (h : skip s = .ok rest) : rest.length ≤ s.length :=
  length_le_of_skips.1 [] s rest h

end Templating.Json
