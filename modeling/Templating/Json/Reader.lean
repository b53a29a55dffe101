import Templating.Json.Number
import Templating.Json.Text

namespace Templating.Json

/-- A reader passes over blanks at the front of a text and gives the value behind them and the text
after it. Every value takes at least one character, so that reading a list comes to an end. -/
structure Reader (α : Type) where
  run : List Char → Except Fault (α × List Char)
  shorter {s a rest} : run s = .ok (a, rest) → rest.length < s.length

/-- The value of a number that may be a word of 32 bits; one that is no finite number at all is
malformed. -/
def readNumber (s : List Char) : Except Fault (Option Nat × List Char) := do
  let (literal, rest) ← Literal.read s
  if literal.isFinite then return (literal.natural?, rest) else .error .malformed

/-- Reads a scalar for the sake of its faults; a list or an object is not looked into. -/
def readAny (c : Char) (rest : List Char) : Except Fault Unit :=
  if c = '"' then (unquote [] rest).map fun _ => ()
  else if c = '-' ∨ c.isDigit then (readNumber (c :: rest)).map fun _ => ()
  else if c = '[' ∨ c = '{' then .ok ()
  else
    match wordTail? c with
    | some tail => (expect tail rest).map fun _ => ()
    | none => .error .malformed

/-- The fault of a text whose first character starts a value of another shape. -/
def otherShape (c : Char) (rest : List Char) : Fault :=
  match readAny c rest with
  | .ok () => .mismatched
  | .error e => e

theorem length_of_readNumber {s rest : List Char} {n : Option Nat}
    (h : readNumber s = .ok (n, rest)) : rest.length < s.length := by
  obtain ⟨⟨l, rest⟩, hl, h⟩ := ok_of_bind h
  dsimp only at h
  split at h
  · cases h
    exact Literal.length_of_read hl
  · cases h

namespace Reader

def map (f : α → β) (r : Reader α) : Reader β where
  run s := (r.run s).map fun (a, rest) => (f a, rest)
  shorter {s b rest} h := by
    cases hr : r.run s with
    | error e => rw [hr] at h; cases h
    | ok p =>
      rw [hr] at h
      cases h
      exact r.shorter hr

/-- Reads by the first character that is no blank. -/
def ofFirst (f : Char → List Char → Except Fault (α × List Char))
    (hf : ∀ {c s a rest}, f c s = .ok (a, rest) → rest.length ≤ s.length) : Reader α where
  run s :=
    match dropBlanks s with
    | [] => .error .truncated
    | c :: rest => f c rest
  shorter {s a rest} h := by
    split at h
    · cases h
    · rename_i hs
      exact Nat.lt_of_le_of_lt (hf h) (length_of_dropBlanks hs)

def string : Reader String :=
  ofFirst (fun c s =>
    if c = '"' then do
      let (cs, rest) ← unquote [] s
      return (String.ofList cs, rest)
    else .error (otherShape c s)) <| by
  intro c s a rest h
  split at h
  · obtain ⟨⟨cs, rest⟩, hu, h⟩ := ok_of_bind h
    cases h
    exact Nat.le_of_lt (length_of_unquote hu)
  · cases h

/-- A word of 32 bits, written with digits alone. -/
def word : Reader UInt32 :=
  ofFirst (fun c s =>
    if c = '-' ∨ c.isDigit then do
      let (n, rest) ← readNumber (c :: s)
      match n with
      | some n => if n < UInt32.size then .ok (UInt32.ofNat n, rest) else .error .mismatched
      | none => .error .mismatched
    else .error (otherShape c s)) <| by
  intro c s a rest h
  split at h
  · obtain ⟨⟨n, rest⟩, hn, h⟩ := ok_of_bind h
    dsimp only at h
    split at h
    · split at h
      · cases h
        exact Nat.le_of_lt_succ (length_of_readNumber hn)
      · cases h
    · cases h
  · cases h

/-- The word `null` stands for no value. -/
def optional (r : Reader α) : Reader (Option α) where
  run s :=
    match dropBlanks s with
    | 'n' :: rest => (expect ['u', 'l', 'l'] rest).map fun rest => (none, rest)
    | s => (r.run s).map fun (a, rest) => (some a, rest)
  shorter {s a rest} h := by
    split at h
    · rename_i rest' hs
      cases he : expect ['u', 'l', 'l'] rest' with
      | error e => rw [he] at h; cases h
      | ok t =>
        rw [he] at h
        cases h
        have := length_of_expect he
        have := length_of_dropBlanks hs
        omega
    · cases hr : r.run (dropBlanks s) with
      | error e => rw [hr] at h; cases h
      | ok p =>
        rw [hr] at h
        cases h
        exact Nat.lt_of_lt_of_le (r.shorter hr) (length_dropBlanks_le s)

/-- The items of a list up to its closing bracket, added to those read before in reverse. -/
def items (r : Reader α) (before : List α) (s : List Char) : Except Fault (List α × List Char) :=
  match h : r.run s with
  | .error e => .error e
  | .ok (a, rest) =>
    have := r.shorter h
    match hb : dropBlanks rest with
    | [] => .error .truncated
    | c :: rest' =>
      have := length_of_dropBlanks hb
      if c = ']' then .ok ((a :: before).reverse, rest')
      else if c = ',' then items r (a :: before) rest'
      else .error .malformed
termination_by s.length

theorem length_of_items {r : Reader α} {before : List α} {s : List Char} {as : List α}
    {rest : List Char} (h : items r before s = .ok (as, rest)) : rest.length < s.length := by
  fun_induction items r before s with
  | case1 => cases h
  | case2 => cases h
  | case3 => cases h; omega
  | case4 => have := ‹_ → _› h; omega
  | case5 => cases h

def list (r : Reader α) : Reader (List α) :=
  ofFirst (fun c s =>
    if c = '[' then
      match dropBlanks s with
      | [] => .error .truncated
      | ']' :: rest => .ok ([], rest)
      | s => items r [] s
    else .error (otherShape c s)) <| by
  intro c s a rest h
  split at h
  · split at h
    · cases h
    · rename_i hs
      cases h
      exact Nat.le_of_lt (length_of_dropBlanks hs)
    · exact Nat.le_trans (Nat.le_of_lt (length_of_items h)) (length_dropBlanks_le s)
  · cases h

/-- The value of a text that holds nothing else but blanks. -/
def read (r : Reader α) (text : String) : Except Fault α := do
  let (a, rest) ← r.run text.toList
  if dropBlanks rest = [] then return a else .error .malformed

end Reader

end Templating.Json
