namespace Templating.Json

/-- Values that are written; all their numbers are natural. -/
inductive Value where
  | null
  | bool (b : Bool)
  | number (n : Nat)
  | string (s : String)
  | array (items : List Value)
  | object (members : List (String × Value))
  deriving Repr, Inhabited

/-- A text is refused for its first fault: it breaks the grammar, it ends too early, or it is of
another shape than asked for. -/
inductive Fault where
  | malformed
  | truncated
  | mismatched
  deriving Repr, DecidableEq

def isBlank (c : Char) : Bool :=
  c == ' ' || c == '\n' || c == '\t' || c == '\r'

def dropBlanks (s : List Char) : List Char :=
  s.dropWhile isBlank

theorem length_dropBlanks_le (s : List Char) : (dropBlanks s).length ≤ s.length :=
  (List.dropWhile_sublist isBlank).length_le

theorem length_of_dropBlanks {s rest : List Char} {c : Char} (h : dropBlanks s = c :: rest) :
    rest.length < s.length := by
  have hle := length_dropBlanks_le s
  rw [h] at hle
  exact hle

theorem ok_of_bind {x : Except Fault α} {f : α → Except Fault β} {b : β} (h : x >>= f = .ok b) :
    ∃ a, x = .ok a ∧ f a = .ok b := by
  cases x with
  | error e => cases h
  | ok a => exact ⟨a, rfl, h⟩

/-- The text after a word that has to stand at its front. -/
def expect : List Char → List Char → Except Fault (List Char)
  | [], s => .ok s
  | _ :: _, [] => .error .truncated
  | c :: word, d :: s => if c = d then expect word s else .error .malformed

theorem length_of_expect {word s rest : List Char} (h : expect word s = .ok rest) :
    rest.length + word.length = s.length := by
  fun_induction expect word s with
  | case1 => simp_all
  | case2 => simp at h
  | case3 c word s ih => have := ih h; simp; omega
  | case4 => simp at h

/-- What follows the first letter of `null`, `true` and `false`. -/
def wordTail? : Char → Option (List Char)
  | 'n' => some ['u', 'l', 'l']
  | 't' => some ['r', 'u', 'e']
  | 'f' => some ['a', 'l', 's', 'e']
  | _ => none

end Templating.Json
